import Berk162.Lib.CText
import Berk162.LibC.String

/-!
# Strtok — `lib/string.c`, breaking a string into tokens

The string is an object of memory with its terminating null, the delimiters are a string of their
own.  A call gives back what it wrote next to its result.
-/

namespace Berk162

variable {o : Object} {mem : Nat → UInt8} {D s : CString} {a pos : Nat}

/-- `strchr` in the characters `string`, which a null follows. -/
def strchr : Bytes → UInt8 → Option Nat
  | [], c => if 0 = c then some 0 else none
  | x :: string, c => if x = c then some 0 else (strchr string c).map (· + 1)

/-- The first loop of `strtok_r`: the pointer behind the delimiters, and whether the string ends
there. -/
def skip_delimiters (o : Object) (mem : Nat → UInt8) (delimiters : CString) :
    Nat → Nat → Option (Nat × Bool)
  | 0, _ => none
  | fuel + 1, s => do
      let c ← o.load mem s
      if strchr delimiters.chars c ≠ none then
        if c = 0 then return (s, true)
        else skip_delimiters o mem delimiters fuel (size_add s 1)
      else return (s, false)

/-- The second loop of `strtok_r`. -/
def skip_token (o : Object) (mem : Nat → UInt8) (delimiters : CString) : Nat → Nat → Option Nat
  | 0, _ => none
  | fuel + 1, s => do
      if strchr delimiters.chars (← o.load mem s) = none then
        skip_token o mem delimiters fuel (size_add s 1)
      else return s

/-- What a call of `strtok_r` leaves: its result, memory, `*save_ptr` and the bytes it stored. -/
structure StrtokResult where
  token : Option Nat
  mem : Nat → UInt8
  save_ptr : Nat
  writes : List (Nat × UInt8)

/-- `s` is null where it is 0. -/
def Object.strtok_r (o : Object) (fuel : Nat) (mem : Nat → UInt8) (s : Nat) (delimiters : CString)
    (save_ptr : Nat) : Option StrtokResult := do
  let s := if s = 0 then save_ptr else s
  ASSERT (s ≠ 0)
  let (s, ends) ← skip_delimiters o mem delimiters fuel s
  if ends then return ⟨none, mem, s, []⟩
  else
    let token := s
    let s ← skip_token o mem delimiters fuel s
    if (← o.load mem s) ≠ 0 then
      let mem ← o.store mem s 0
      return ⟨some token, mem, size_add s 1, [(s, 0)]⟩
    else return ⟨some token, mem, s, []⟩

/-- One call for each set of delimiters: the first on the string at `s`, the others go on from where
the one before stopped. -/
def Object.strtok_calls (o : Object) (fuel : Nat) (mem : Nat → UInt8) (s save_ptr : Nat) :
    List CString → Option (List (Option Nat) × (Nat → UInt8) × List (Nat × UInt8))
  | [] => some ([], mem, [])
  | D :: Ds => do
      let r ← o.strtok_r fuel mem s D save_ptr
      let (tokens, mem, writes) ← o.strtok_calls fuel r.mem 0 r.save_ptr Ds
      return (r.token :: tokens, mem, r.writes ++ writes)

/-! ## One call -/

/-- The null is in every string. -/
theorem strchr_eq_none {c : UInt8} : strchr D.chars c = none ↔ c ≠ 0 ∧ c ∉ D.chars := by
  induction D.chars with
  | nil =>
      by_cases h : 0 = c
      · simp [strchr, h]
      · simpa [strchr, h] using Ne.symm h
  | cons x string ih =>
      by_cases h : x = c
      · simp [strchr, h]
      · rw [strchr, if_neg h, Option.map_eq_none_iff, ih, List.mem_cons]
        have hc : c ≠ x := Ne.symm h
        simp [hc]

/-- The character at `i`, also where it is the terminating null. -/
def CString.char (s : CString) (i : Nat) : UInt8 := s.chars.getD i 0

theorem CString.char_length : s.char s.chars.length = 0 := by
  rw [char, List.getD_eq_default _ _ (Nat.le_refl _)]

theorem CString.char_ne_zero {i : Nat} (h : i < s.chars.length) : s.char i ≠ 0 := by
  rw [char, List.getD_eq_getElem _ _ h]
  intro hzero
  exact s.no_null (hzero ▸ List.getElem_mem h)

/-- A loop that goes on while `p` holds of the character gets from `pos` to `e`. -/
structure StopsAt (p : UInt8 → Prop) (s : CString) (pos e : Nat) : Prop where
  begins : pos ≤ e
  within : e ≤ s.chars.length
  skipped : ∀ i, pos ≤ i → i < e → p (s.char i)
  stops : e < s.chars.length → ¬ p (s.char e)

namespace StopsAt

variable {p : UInt8 → Prop} {e : Nat}

theorem last : StopsAt p s s.chars.length s.chars.length :=
  ⟨Nat.le_refl _, Nat.le_refl _, by omega, by omega⟩

theorem here (hlt : pos < s.chars.length) (h : ¬ p (s.char pos)) : StopsAt p s pos pos :=
  ⟨Nat.le_refl _, Nat.le_of_lt hlt, by omega, fun _ => h⟩

theorem next (h : p (s.char pos)) (hrest : StopsAt p s (pos + 1) e) : StopsAt p s pos e := by
  refine ⟨Nat.le_of_succ_le hrest.begins, hrest.within, fun i hi hie => ?_, hrest.stops⟩
  rcases Nat.eq_or_lt_of_le hi with rfl | hi
  · exact h
  · exact hrest.skipped i hi hie

end StopsAt

/-- Memory has the string `s` at `a`, from the character `pos` on. -/
structure Unread (mem : Nat → UInt8) (s : CString) (a pos : Nat) : Prop where
  within : pos ≤ s.chars.length
  chars : ∀ i, pos ≤ i → i ≤ s.chars.length → mem (a + i) = s.char i

/-- The object of a string, its null with it. -/
def CString.object (s : CString) (a : Nat) : Object := ⟨a, a + s.chars.length + 1⟩

namespace Unread

theorem load (h : Unread mem s a pos) {i : Nat} (hi : pos ≤ i) (hle : i ≤ s.chars.length) :
    (s.object a).load mem (a + i) = some (s.char i) := by
  rw [Object.load_eq ⟨Nat.le_add_right a i, by simp only [CString.object]; omega⟩, h.chars i hi hle]

theorem later (h : Unread mem s a pos) {i : Nat} (hi : pos ≤ i) (hle : i ≤ s.chars.length) :
    Unread mem s a i :=
  ⟨hle, fun j hj hj' => h.chars j (Nat.le_trans hi hj) hj'⟩

theorem skip_delimiters {fuel : Nat} (h : Unread mem s a pos) (ha : a + s.chars.length < WORD)
    (hf : s.chars.length - pos < fuel) :
    ∃ t, StopsAt (· ∈ D.chars) s pos t ∧ skip_delimiters (s.object a) mem D fuel (a + pos) =
      some (a + t, decide (t = s.chars.length)) := by
  induction fuel generalizing pos with
  | zero => omega
  | succ fuel ih =>
      have hload := h.load (Nat.le_refl pos) h.within
      rw [Berk162.skip_delimiters, hload]
      simp only [Option.bind_eq_bind, Option.bind_some]
      rcases Nat.eq_or_lt_of_le h.within with rfl | hlt
      · refine ⟨_, .last, ?_⟩
        rw [CString.char_length, if_pos (by simp [strchr_eq_none]), if_pos rfl]
        simp
      · have hne := s.char_ne_zero hlt
        by_cases hD : s.char pos ∈ D.chars
        · obtain ⟨t, hstop, heq⟩ := ih (h.later (Nat.le_succ pos) hlt) (by omega)
          refine ⟨t, .next hD hstop, ?_⟩
          rw [if_pos (by simp [strchr_eq_none, hD]), if_neg hne, size_add_eq (by omega)]
          exact heq
        · refine ⟨pos, .here hlt hD, ?_⟩
          rw [if_neg (not_not.2 (strchr_eq_none.2 ⟨hne, hD⟩)), decide_eq_false (by omega)]
          rfl

theorem skip_token {fuel : Nat} (h : Unread mem s a pos) (ha : a + s.chars.length < WORD)
    (hf : s.chars.length - pos < fuel) :
    ∃ e, StopsAt (· ∉ D.chars) s pos e ∧
      skip_token (s.object a) mem D fuel (a + pos) = some (a + e) := by
  induction fuel generalizing pos with
  | zero => omega
  | succ fuel ih =>
      have hload := h.load (Nat.le_refl pos) h.within
      rw [Berk162.skip_token, hload]
      simp only [Option.bind_eq_bind, Option.bind_some]
      rcases Nat.eq_or_lt_of_le h.within with rfl | hlt
      · refine ⟨_, .last, ?_⟩
        rw [CString.char_length, if_neg (by simp [strchr_eq_none])]
        rfl
      · have hne := s.char_ne_zero hlt
        by_cases hD : s.char pos ∈ D.chars
        · refine ⟨pos, .here hlt (not_not_intro hD), ?_⟩
          rw [if_neg (by simp [strchr_eq_none, hD])]
          rfl
        · obtain ⟨e, hstop, heq⟩ := ih (h.later (Nat.le_succ pos) hlt) (by omega)
          refine ⟨e, .next hD hstop, ?_⟩
          rw [if_pos (strchr_eq_none.2 ⟨hne, hD⟩), size_add_eq (by omega)]
          exact heq

end Unread

/-- The `n` characters at `t` are the first maximal run of characters outside of `D` from `pos`
on. -/
structure FirstRun (D s : CString) (pos t n : Nat) : Prop where
  begins : pos ≤ t
  nonempty : 0 < n
  fits : t + n ≤ s.chars.length
  skipped : ∀ i, pos ≤ i → i < t → s.char i ∈ D.chars
  outside : ∀ i, t ≤ i → i < t + n → s.char i ∉ D.chars
  ends : t + n < s.chars.length → s.char (t + n) ∈ D.chars

/-- Memory after the stores `writes`. -/
def stored (mem : Nat → UInt8) (writes : List (Nat × UInt8)) : Nat → UInt8 :=
  writes.foldl (fun m w => Function.update m w.1 w.2) mem

theorem stored_of_not_mem {writes : List (Nat × UInt8)} {x : Nat} (h : ∀ w ∈ writes, w.1 ≠ x) :
    stored mem writes x = mem x := by
  induction writes generalizing mem with
  | nil => rfl
  | cons w writes ih =>
      have htail : stored (Function.update mem w.1 w.2) writes x = Function.update mem w.1 w.2 x :=
        ih fun v hv => h v (List.mem_cons_of_mem _ hv)
      rw [stored, List.foldl_cons]
      rw [stored] at htail
      rw [htail, Function.update_of_ne (Ne.symm (h w List.mem_cons_self))]

/-- What is stored to cut off the token that ends in front of `e`. -/
def cut (s : CString) (a e : Nat) : List (Nat × UInt8) :=
  if e < s.chars.length then [(a + e, 0)] else []

theorem Unread.cut (h : Unread mem s a pos) {e : Nat} (hpos : pos ≤ e) (hle : e ≤ s.chars.length) :
    Unread (stored mem (cut s a e)) s a (min (e + 1) s.chars.length) := by
  refine ⟨Nat.min_le_right _ _, fun i hi hlen => ?_⟩
  rw [stored_of_not_mem, h.chars i (by omega) hlen]
  intro w hw
  rw [Berk162.cut] at hw
  split at hw
  · cases List.mem_singleton.1 hw
    simp only
    omega
  · cases hw

/-- A call: `p` is the pointer it is given. -/
theorem Unread.strtok_r {fuel p save_ptr : Nat} (h : Unread mem s a pos) (ha : 0 < a)
    (hfit : a + s.chars.length < WORD) (hf : s.chars.length < fuel)
    (hp : (if p = 0 then save_ptr else p) = a + pos) :
    (∃ t n, FirstRun D s pos t n ∧ (s.object a).strtok_r fuel mem p D save_ptr =
      some ⟨some (a + t), stored mem (Berk162.cut s a (t + n)),
        a + min (t + n + 1) s.chars.length, Berk162.cut s a (t + n)⟩) ∨
    (∀ i, pos ≤ i → i < s.chars.length → s.char i ∈ D.chars) ∧
      (s.object a).strtok_r fuel mem p D save_ptr = some ⟨none, mem, a + s.chars.length, []⟩ := by
  have hleft : s.chars.length - pos < fuel := by omega
  obtain ⟨t, ⟨hpos, hlen, hskip, hstop⟩, heq⟩ := h.skip_delimiters hfit (D := D) hleft
  have hnonnull : a + pos ≠ 0 := by omega
  rw [Object.strtok_r, hp, ASSERT_pos hnonnull, Option.bind_eq_bind, Option.bind_some, heq]
  rcases Nat.eq_or_lt_of_le hlen with rfl | hlt
  · right
    refine ⟨hskip, ?_⟩
    simp
  · left
    have hlater := h.later hpos hlen
    have hleft : s.chars.length - t < fuel := by omega
    obtain ⟨e, ⟨hte, hle, hout, hend⟩, heq⟩ := hlater.skip_token hfit (D := D) hleft
    replace hend : e < s.chars.length → s.char e ∈ D.chars := fun h => not_not.1 (hend h)
    have hne : e ≠ t := by
      rintro rfl
      exact hstop hlt (hend hlt)
    obtain ⟨n, rfl⟩ := Nat.exists_eq_add_of_le hte
    refine ⟨t, n, ⟨hpos, by omega, hle, hskip, hout, hend⟩, ?_⟩
    have hload := hlater.load hte hle
    simp only [Option.bind_eq_bind, Option.bind_some]
    rw [decide_eq_false (by omega), if_neg (by decide), heq, Option.bind_some, hload,
      Option.bind_some]
    rcases Nat.eq_or_lt_of_le hle with he | he
    · rw [he, CString.char_length, if_neg (by decide), Berk162.cut, if_neg (by omega),
        Nat.min_eq_right (by omega)]
      rfl
    · have hobj : (s.object a).lo ≤ a + (t + n) ∧ a + (t + n) < (s.object a).hi :=
        ⟨Nat.le_add_right _ _, by simp only [CString.object]; omega⟩
      rw [if_pos (s.char_ne_zero he), Object.store_eq hobj, Berk162.cut, if_pos he,
        Nat.min_eq_left (by omega), Option.bind_some, size_add_eq (by omega)]
      rfl

/-! ## Runs of calls -/

/-- The tokens, each with where it begins in the string and its length, that the calls with the
delimiters `Ds` find from the character `pos` on. -/
inductive Tokens (s : CString) : Nat → List CString → List (Option (Nat × Nat)) → Prop
  | done {pos : Nat} : Tokens s pos [] []
  | token {pos t n : Nat} {D : CString} {Ds : List CString} {runs : List (Option (Nat × Nat))} :
      FirstRun D s pos t n → Tokens s (min (t + n + 1) s.chars.length) Ds runs →
      Tokens s pos (D :: Ds) (some (t, n) :: runs)
  | none {pos : Nat} {D : CString} {Ds : List CString} {runs : List (Option (Nat × Nat))} :
      (∀ i, pos ≤ i → i < s.chars.length → s.char i ∈ D.chars) →
      Tokens s s.chars.length Ds runs → Tokens s pos (D :: Ds) (none :: runs)

namespace Tokens

variable {Ds : List CString} {runs : List (Option (Nat × Nat))}

theorem begins (h : Tokens s pos Ds runs) (hpos : pos ≤ s.chars.length) :
    ∀ r, some r ∈ runs → pos ≤ r.1 ∧ 0 < r.2 ∧ r.1 + r.2 ≤ s.chars.length := by
  induction h with
  | done => simp
  | token hrun _ ih =>
      intro r hr
      rcases List.mem_cons.1 hr with hr | hr
      · cases hr
        exact ⟨hrun.begins, hrun.nonempty, hrun.fits⟩
      · have := ih (Nat.min_le_right _ _) r hr
        have hbegins := hrun.begins
        omega
  | none _ _ ih =>
      intro r hr
      rcases List.mem_cons.1 hr with hr | hr
      · cases hr
      · have := ih (Nat.le_refl _) r hr
        omega

/-- Each token lies in front of the next, with a character between them. -/
theorem ordered (h : Tokens s pos Ds runs) :
    (runs.filterMap id).Pairwise fun r r' => r.1 + r.2 < r'.1 := by
  induction h with
  | done => exact List.Pairwise.nil
  | token hrun htail ih =>
      refine List.pairwise_cons.2 ⟨fun r hr => ?_, ih⟩
      rw [List.mem_filterMap] at hr
      obtain ⟨_, hr, rfl⟩ := hr
      have := htail.begins (Nat.min_le_right _ _) r hr
      omega
  | none _ _ ih => exact ih

/-- Null is followed by null. -/
theorem null_forever (h : Tokens s pos Ds runs) :
    runs.Pairwise fun r r' => r = Option.none → r' = Option.none := by
  induction h with
  | done => exact List.Pairwise.nil
  | token _ _ ih => exact List.pairwise_cons.2 ⟨fun r _ h => absurd h (by simp), ih⟩
  | none _ htail ih =>
      refine List.pairwise_cons.2 ⟨fun r hr _ => ?_, ih⟩
      cases r with
      | none => rfl
      | some r =>
          have := htail.begins (Nat.le_refl _) r hr
          omega

end Tokens

/-- What a run of calls leaves when it started at the character `pos`: each token is in memory, a
null behind it, and only delimiters behind tokens have been overwritten, with nulls. -/
structure Tokenized (mem mem' : Nat → UInt8) (s : CString) (a pos : Nat) (Ds : List CString)
    (runs : List (Option (Nat × Nat))) (writes : List (Nat × UInt8)) : Prop where
  tokens : Tokens s pos Ds runs
  kept : ∀ r, some r ∈ runs → (∀ i, r.1 ≤ i → i < r.1 + r.2 → mem' (a + i) = s.char i) ∧
    mem' (a + (r.1 + r.2)) = 0
  stored : mem' = stored mem writes
  delimiters : ∀ w ∈ writes, ∃ D t n, (D, some (t, n)) ∈ Ds.zip runs ∧
    w = (a + (t + n), 0) ∧ t + n < s.chars.length ∧ s.char (t + n) ∈ D.chars

namespace Tokenized

variable {mem' : Nat → UInt8} {Ds : List CString} {runs : List (Option (Nat × Nat))}
  {writes : List (Nat × UInt8)}

/-- What lies in front of the first character that a run looks at, and the null, stay. -/
theorem frame (h : Tokenized mem mem' s a pos Ds runs writes) (hpos : pos ≤ s.chars.length)
    {x : Nat} (hx : x < a + pos ∨ a + s.chars.length ≤ x) : mem' x = mem x := by
  rw [h.stored]
  apply stored_of_not_mem
  intro w hw
  obtain ⟨D, t, n, hz, rfl, hlt, _⟩ := h.delimiters w hw
  have := h.tokens.begins hpos (t, n) (List.of_mem_zip hz).2
  simp only
  omega

/-- A call that finds a token, and the calls after it. -/
theorem cons_token {t n : Nat} (hmem : Unread mem s a pos) (hrun : FirstRun D s pos t n)
    (h : Tokenized (Berk162.stored mem (cut s a (t + n))) mem' s a (min (t + n + 1) s.chars.length)
      Ds runs writes) :
    Tokenized mem mem' s a pos (D :: Ds) (some (t, n) :: runs) (cut s a (t + n) ++ writes) := by
  have hbegins := hrun.begins
  have hfits := hrun.fits
  have hframe {x : Nat} (hx : x < a + min (t + n + 1) s.chars.length ∨ a + s.chars.length ≤ x) :=
    h.frame (Nat.min_le_right _ _) hx
  have hcut : ∀ w ∈ cut s a (t + n), t + n < s.chars.length ∧ w = (a + (t + n), 0) := by
    intro w hw
    rw [cut] at hw
    split at hw
    · exact ⟨‹_›, List.mem_singleton.1 hw⟩
    · cases hw
  refine ⟨.token hrun h.tokens, fun r hr => ?_, ?_, fun w hw => ?_⟩
  · rcases List.mem_cons.1 hr with hr | hr
    · cases hr
      constructor
      · intro i hi hlt
        rw [hframe (by omega), stored_of_not_mem, hmem.chars i (by omega) (by omega)]
        intro w hw
        rw [(hcut w hw).2]
        simp only
        omega
      · rcases Nat.eq_or_lt_of_le hfits with he | he
        · rw [hframe (by omega), cut, if_neg (by omega)]
          exact (hmem.chars _ (by omega) hfits).trans (he ▸ s.char_length)
        · rw [hframe (by omega), cut, if_pos he]
          exact Function.update_self ..
    · exact h.kept r hr
  · rw [h.stored]
    exact List.foldl_append.symm
  · rcases List.mem_append.1 hw with hw | hw
    · obtain ⟨hlt, rfl⟩ := hcut w hw
      exact ⟨D, t, n, List.mem_cons_self, rfl, hlt, hrun.ends hlt⟩
    · obtain ⟨D', t', n', hz, h'⟩ := h.delimiters w hw
      exact ⟨D', t', n', List.mem_cons_of_mem _ hz, h'⟩

theorem cons_none (hall : ∀ i, pos ≤ i → i < s.chars.length → s.char i ∈ D.chars)
    (h : Tokenized mem mem' s a s.chars.length Ds runs writes) :
    Tokenized mem mem' s a pos (D :: Ds) (none :: runs) writes := by
  refine ⟨.none hall h.tokens, fun r hr => ?_, h.stored, fun w hw => ?_⟩
  · rcases List.mem_cons.1 hr with hr | hr
    · cases hr
    · exact h.kept r hr
  · obtain ⟨D', t', n', hz, h'⟩ := h.delimiters w hw
    exact ⟨D', t', n', List.mem_cons_of_mem _ hz, h'⟩

end Tokenized

theorem Unread.strtok_calls {fuel p save_ptr : Nat} {Ds : List CString} (h : Unread mem s a pos)
    (ha : 0 < a) (hfit : a + s.chars.length < WORD) (hf : s.chars.length < fuel)
    (hp : (if p = 0 then save_ptr else p) = a + pos) :
    ∃ runs mem' writes, (s.object a).strtok_calls fuel mem p save_ptr Ds =
      some (runs.map (Option.map fun r => a + r.1), mem', writes) ∧
        Tokenized mem mem' s a pos Ds runs writes := by
  induction Ds generalizing mem pos p save_ptr with
  | nil => exact ⟨[], mem, [], rfl, ⟨.done, by simp, rfl, by simp⟩⟩
  | cons D Ds ih =>
      rw [Object.strtok_calls]
      rcases h.strtok_r (D := D) ha hfit hf hp with ⟨t, n, hrun, heq⟩ | ⟨hall, heq⟩
      · have hle := hrun.fits
        have hnext := h.cut (Nat.le_trans hrun.begins (Nat.le_add_right t n)) hle
        obtain ⟨runs, mem', writes, hcalls, hrest⟩ := ih hnext (if_pos rfl)
        refine ⟨some (t, n) :: runs, mem', Berk162.cut s a (t + n) ++ writes, ?_, ?_⟩
        · rw [heq, Option.bind_eq_bind, Option.bind_some, hcalls]
          rfl
        · exact .cons_token h hrun hrest
      · have hend := h.later h.within (Nat.le_refl _)
        obtain ⟨runs, mem', writes, hcalls, hrest⟩ := ih hend (if_pos rfl)
        refine ⟨none :: runs, mem', writes, ?_, ?_⟩
        · rw [heq, Option.bind_eq_bind, Option.bind_some, hcalls]
          rfl
        · exact .cons_none hall hrest

/-- The string lies at `a`, a pass of either loop is taken at most once for each of its
characters. -/
theorem strtok_calls_tokenize (s : CString) (mem : Nat → UInt8) (a save_ptr fuel : Nat)
    (Ds : List CString) (ha : 0 < a) (hfit : a + s.chars.length < WORD) (hmem : Unread mem s a 0)
    (hf : s.chars.length < fuel) :
    ∃ runs mem' writes, (s.object a).strtok_calls fuel mem a save_ptr Ds =
      some (runs.map (Option.map fun r => a + r.1), mem', writes) ∧
        Tokenized mem mem' s a 0 Ds runs writes ∧
        (runs.filterMap id).Pairwise (fun r r' => r.1 + r.2 < r'.1) ∧
        runs.Pairwise (fun r r' => r = none → r' = none) := by
  have hp : (if a = 0 then save_ptr else a) = a + 0 := if_neg (Nat.ne_of_gt ha)
  obtain ⟨runs, mem', writes, hcalls, h⟩ := @Unread.strtok_calls _ _ _ _ _ _ _ Ds hmem ha hfit hf hp
  exact ⟨runs, mem', writes, hcalls, h, h.tokens.ordered, h.tokens.null_forever⟩

/-- `,ab;c` with `,`, then `;`, then no delimiter, then `,`. -/
theorem strtok_calls_tokenize_text : ∃ runs mem' writes,
    ((cstr (text ",ab;c")).object 0x1000).strtok_calls 8
      (fun x => (cstr (text ",ab;c")).char (x - 0x1000)) 0x1000 0
      [cstr (text ","), cstr (text ";"), cstr (text ""), cstr (text ",")] =
        some (runs.map (Option.map fun r => 0x1000 + r.1), mem', writes) ∧
      Tokenized (fun x => (cstr (text ",ab;c")).char (x - 0x1000)) mem' (cstr (text ",ab;c")) 0x1000
        0 [cstr (text ","), cstr (text ";"), cstr (text ""), cstr (text ",")] runs writes ∧
      (runs.filterMap id).Pairwise (fun r r' => r.1 + r.2 < r'.1) ∧
      runs.Pairwise (fun r r' => r = none → r' = none) := by
  refine strtok_calls_tokenize (cstr (text ",ab;c"))
    (fun x => (cstr (text ",ab;c")).char (x - 0x1000)) 0x1000 0 8
    [cstr (text ","), cstr (text ";"), cstr (text ""), cstr (text ",")] (by decide) (by decide)
    ⟨Nat.zero_le _, fun i _ _ => ?_⟩ (by decide)
  rw [Nat.add_sub_cancel_left]

end Berk162
