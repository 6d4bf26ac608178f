import Berk162.HwMemory.UserStrings

/-!
# Handler — the parts of `syscall_handler`

The handler reads the number of the call and the arguments from the stack of the user.  If that goes
well it has a request, which it then serves.
-/

namespace Berk162

namespace HwMemory

open Kern

inductive Request
  | sys_exit (status : Int)
  | sys_open (filename : Nat)
  | sys_write (fd buffer size : Nat)
  | sys_read (fd buffer size : Nat)
  | sys_close (fd : Nat)
  | unimplemented
  deriving DecidableEq, Repr

/-- What the handler does with a request. -/
def serve (e : DirEntry) : Request → Kern (Option Int)
  | .sys_exit status => syscall_exit status
  | .sys_open filename => do
      validate_string_in_user_region filename
      return some (← syscall_open filename e)
  | .sys_write fd buffer size => do
      validate_buffer_in_user_region buffer size
      return some (← syscall_write fd buffer size)
  | .sys_read fd buffer size => do
      validate_buffer_in_user_region buffer size
      return some (← syscall_read fd buffer size)
  | .sys_close fd => do
      syscall_close fd
      return none
  | .unimplemented => return none

def Kernel.word (k : Kernel) (a : Nat) : Nat := le_val ((List.range 4).map fun j => k.byte (a + j))

instance (w : Bool) (k : Kernel) (a : Nat) : Decidable (Can w k a) :=
  inferInstanceAs (Decidable (_ → ite _ _ _))

/-- The first `n` bytes on the stack can be read. -/
def Args (k : Kernel) (esp n : Nat) : Prop :=
  esp + n ≤ PHYS_BASE ∧ ∀ j, j < n → Can false k (esp + j)

instance (k : Kernel) (esp n : Nat) : Decidable (Args k esp n) :=
  inferInstanceAs (Decidable (_ ∧ _))

/-- What the user asks for, if all of it can be read. -/
def Kernel.request (k : Kernel) (esp : Nat) : Option Request :=
  let number := k.word esp
  let with_args (n : Nat) (r : Request) := if Args k esp (4 + 4 * n) then some r else none
  if ¬ Args k esp 4 then none
  else if number = SYS_EXIT then with_args 1 (.sys_exit (int32 (k.word (esp + 4))))
  else if number = SYS_OPEN then with_args 1 (.sys_open (k.word (esp + 4)))
  else if number = SYS_WRITE then
    with_args 3 (.sys_write (k.word (esp + 4)) (k.word (esp + 8)) (k.word (esp + 12)))
  else if number = SYS_READ then
    with_args 3 (.sys_read (k.word (esp + 4)) (k.word (esp + 8)) (k.word (esp + 12)))
  else if number = SYS_CLOSE then with_args 1 (.sys_close (k.word (esp + 4)))
  else some .unimplemented

variable {α : Type} {k k' t : Kernel} {esp buffer length a n : Nat} {e : DirEntry}

/-! ## The checks -/

theorem size_sub_PHYS_BASE (h : buffer < PHYS_BASE) :
    size_sub PHYS_BASE buffer = PHYS_BASE - buffer := by
  rw [PHYS_BASE_eq] at *
  unfold size_sub WORD
  omega

theorem after_validate_buffer {Q : Unit → Kernel → Prop} {E : Stop → Kernel → Prop} :
    After (validate_buffer_in_user_region buffer length) k Q E ↔
      if buffer < PHYS_BASE ∧ buffer + length ≤ PHYS_BASE then Q () k else E (.exited (-1)) k := by
  unfold validate_buffer_in_user_region
  by_cases hlt : buffer < PHYS_BASE
  · simp only [size_sub_PHYS_BASE hlt]
    by_cases hle : buffer + length ≤ PHYS_BASE
    · rw [if_neg (by omega), if_pos ⟨hlt, hle⟩]
      exact after_pure
    · rw [if_pos (by omega), if_neg (by omega)]
      exact after_throw
  · rw [if_pos (Or.inl hlt), if_neg fun h => hlt h.1]
    exact after_throw

/-- The first characters of the user, as a string. -/
def Chars.string (h : Chars k a n) : CString where
  chars := (List.range n).map fun j => k.byte (a + j)
  no_null hmem := by
    obtain ⟨j, hj, hzero⟩ := List.mem_map.1 hmem
    exact (h j (List.mem_range.1 hj)).2 hzero

theorem Chars.userString (h : Chars k a n) (hcan : Can false k (a + n)) (hnull : k.byte (a + n) = 0) :
    UserString k a h.string := by
  have hlen : h.string.chars.length = n := by
    rw [Chars.string, List.length_map, List.length_range]
  refine ⟨fun j hj => ?_, fun j hj => ?_⟩
  · rcases Nat.lt_or_eq_of_le (hlen ▸ hj) with hlt | rfl
    · exact (h j hlt).1
    · exact hcan
  · rcases Nat.lt_or_eq_of_le (hlen ▸ hj) with hlt | rfl
    · rw [List.getD_eq_getElem _ _ (hlen.symm ▸ hlt)]
      simp [Chars.string]
    · rw [hnull, List.getD_eq_default _ _ (Nat.le_of_eq hlen)]

/-- A string that is too long is found out when a byte behind the user's memory has been read. -/
theorem after_validate_string (k : Kernel) (string : Nat) :
    After (validate_string_in_user_region string) k
      (fun _ k' => Accessed k k' string (PHYS_BASE - string) ∧ k'.memory = k.memory ∧
        ∃ name : CString, UserString k string name ∧ string + name.chars.length < PHYS_BASE)
      fun e k' => e = .exited (-1) ∧ Accessed k k' string (PHYS_BASE - string + 1) ∧
        if string < PHYS_BASE then Examined k string (PHYS_BASE - string) k' else k' = k := by
  unfold validate_string_in_user_region
  by_cases hlt : string < PHYS_BASE
  · simp only [hlt, not_true, if_false, if_true, size_sub_PHYS_BASE hlt]
    refine after_bind.2 ((after_strnlen k string 0 _).mono (fun n t ht => ?_) fun e t ht => ht)
    obtain ⟨haccessed, hmem, hexamined, j, hj, rfl, hchars, hcan, hnull⟩ := ht
    rw [Nat.zero_add]
    split
    · exact after_throw.2 ⟨rfl, haccessed, hexamined⟩
    · next hne =>
      have hj : j < PHYS_BASE - string := Nat.lt_of_le_of_ne hj hne
      have hname := hchars.userString hcan (hnull hj)
      refine after_pure.2 ⟨{ haccessed with touched := fun b hb => ?_ }, hmem, _, hname, ?_⟩
      · rcases (hexamined b).1 hb with hb | ⟨i, hi, rfl, hexamined⟩
        · exact Or.inl hb
        · have hij : i ≤ j := by
            by_contra hlt
            exact (hexamined j (Nat.lt_of_not_le hlt)).2 (hnull hj)
          exact Or.inr ⟨Nat.le_add_right _ _, by rw [Nat.add_zero]; omega⟩
      · rw [Chars.string, List.length_map, List.length_range]
        omega
  · simp only [hlt, not_false_iff, if_true, if_false]
    exact after_throw.2 ⟨rfl, Accessed.refl k _ _, rfl⟩

/-- A string that ends below `PHYS_BASE` is let through. -/
theorem UserString.after_validate {name : CString} (h : UserString k a name)
    (hend : a + name.chars.length < PHYS_BASE) : After (validate_string_in_user_region a) k
      (fun _ k' => Looked k k' a (name.chars.length + 1) ∧ k'.fs = k.fs) fun _ _ => False := by
  have hlt : a < PHYS_BASE := by omega
  unfold validate_string_in_user_region
  simp only [hlt, not_true, if_false, size_sub_PHYS_BASE hlt]
  have hrest : name.chars.length ≤ 0 + (PHYS_BASE - a) := by omega
  refine after_bind.2 ((h.after_strnlen (Nat.zero_le _) hrest).mono (fun n t ht => ?_) fun _ _ he => he)
  obtain ⟨hlooked, hfs, rfl⟩ := ht
  rw [if_neg (by omega)]
  exact after_pure.2 ⟨hlooked, hfs⟩

theorem after_load_word (k : Kernel) (a : Nat) : After (load_word a) k
    (fun v k' => Reached false k a 4 k' ∧ k'.memory = k.memory ∧ v = k.word a)
    (Faulted false k a 4) := by
  refine after_bind.2 ((after_load_bytes k a 4).mono (fun bs t ht => ?_) fun e t ht => ht)
  exact after_pure.2 ⟨ht.1, ht.2.1, congrArg le_val ht.2.2⟩

/-! ## The arguments -/

/-- Bytes of the user have been read. -/
structure Fetched (k t : Kernel) : Prop where
  accessed : Accessed k t 0 PHYS_BASE
  memory : t.memory = k.memory

theorem Fetched.refl (k : Kernel) : Fetched k k := ⟨Accessed.refl k _ _, rfl⟩

theorem Fetched.word (h : Fetched k t) (a : Nat) : t.word a = k.word a := by
  unfold Kernel.word Kernel.byte
  rw [h.memory]

section

variable {f : Nat → Kern α} {g : Unit → Kern α} {Q : α → Kernel → Prop} {E : Stop → Kernel → Prop}

/-- A word of the stack is read. -/
theorem after_fetch (ht : Fetched k t) (ha : a + 4 ≤ PHYS_BASE)
    (hok : (∀ j, j < 4 → Can false k (a + j)) → ∀ t', Fetched k t' → After (f (k.word a)) t' Q E)
    (hfault : (¬ ∀ j, j < 4 → Can false k (a + j)) → ∀ t', Accessed k t' 0 PHYS_BASE →
      E (.exited (-1)) t') :
    After (load_word a >>= f) t Q E := by
  have hcan : ∀ j, Can false t (a + j) ↔ Can false k (a + j) := fun j =>
    Can.congr ht.accessed.page
  refine after_bind.2 ((after_load_word t a).mono (fun v u hu => ?_) fun e u hu => ?_)
  · obtain ⟨⟨haccessed, hread⟩, hmem, rfl⟩ := hu
    rw [ht.word]
    refine hok (fun j hj => (hcan j).1 (hread j hj)) u ⟨?_, hmem.trans ht.memory⟩
    exact ht.accessed.trans (haccessed.mono (Nat.zero_le _) (by omega))
  · obtain ⟨rfl, haccessed, j, hj, hnot⟩ := hu
    refine hfault (fun h => hnot ((hcan j).2 (h j hj))) u ?_
    exact ht.accessed.trans (haccessed.mono (Nat.zero_le _) (by omega))

/-- What follows a check. -/
theorem after_validated (hpass : buffer + length ≤ PHYS_BASE → After (g ()) t Q E)
    (hkill : ¬ (buffer < PHYS_BASE ∧ buffer + length ≤ PHYS_BASE) → E (.exited (-1)) t) :
    After (validate_buffer_in_user_region buffer length >>= g) t Q E := by
  refine after_bind.2 (after_validate_buffer.2 ?_)
  split
  · next h => exact hpass h.2
  · next h => exact hkill h

end

theorem Args.mono (h : Args k esp n) {m : Nat} (hm : m ≤ n) : Args k esp m :=
  ⟨by have hle := h.1; omega, fun j hj => h.2 j (Nat.lt_of_lt_of_le hj hm)⟩

theorem Args.append {m : Nat} (h : Args k esp n) (hle : esp + (n + m) ≤ PHYS_BASE)
    (hcan : ∀ j, j < m → Can false k (esp + n + j)) : Args k esp (n + m) := by
  refine ⟨hle, fun j hj => ?_⟩
  by_cases hlt : j < n
  · exact h.2 j hlt
  · have hj' := hcan (j - n) (by omega)
    rwa [Nat.add_assoc, Nat.add_sub_cancel' (Nat.le_of_not_lt hlt)] at hj'

theorem Args.drop {m : Nat} (h : Args k esp (n + m)) : ∀ j, j < m → Can false k (esp + n + j) := by
  intro j hj
  rw [Nat.add_assoc]
  exact h.2 (n + j) (Nat.add_lt_add_left hj n)

theorem Args.size_add (h : Args k esp 4) : size_add esp 4 = esp + 4 := by
  have hle := h.1
  rw [PHYS_BASE_eq] at hle
  unfold Berk162.size_add WORD
  omega

section

variable {f : Nat → Kern α} {f₃ : Nat → Nat → Nat → Kern α} {Q : α → Kernel → Prop}
  {E : Stop → Kernel → Prop}

/-- One argument behind the number. -/
theorem after_arg (ht : Fetched k t) (hargs : Args k esp 4)
    (hok : Args k esp 8 → ∀ t', Fetched k t' → After (f (k.word (esp + 4))) t' Q E)
    (hnot : ¬ Args k esp 8 → ∀ t', Accessed k t' 0 PHYS_BASE → E (.exited (-1)) t') :
    After (do
      validate_buffer_in_user_region (size_add esp 4) 4
      let v ← load_word (size_add esp 4)
      f v) t Q E := by
  rw [hargs.size_add]
  refine after_validated (fun hle => ?_) fun hout => ?_
  · refine after_fetch ht hle (fun hcan => hok (hargs.append (by omega) hcan)) fun hcan => ?_
    exact hnot fun h => hcan h.drop
  · exact hnot (fun h => hout ⟨by have hle := h.1; omega, by have hle := h.1; omega⟩) t ht.accessed

/-- Three arguments behind the number. -/
theorem after_args (ht : Fetched k t) (hargs : Args k esp 4)
    (hok : Args k esp 16 → ∀ t', Fetched k t' →
      After (f₃ (k.word (esp + 4)) (k.word (esp + 8)) (k.word (esp + 12))) t' Q E)
    (hnot : ¬ Args k esp 16 → ∀ t', Accessed k t' 0 PHYS_BASE → E (.exited (-1)) t') :
    After (do
      validate_buffer_in_user_region (size_add esp 4) 12
      let x ← load_word (size_add esp 4)
      let y ← load_word (size_add esp 4 + 4)
      let z ← load_word (size_add esp 4 + 8)
      f₃ x y z) t Q E := by
  rw [hargs.size_add]
  refine after_validated (fun hle => ?_) fun hout => ?_
  · refine after_fetch ht (by omega) (fun hfst t₁ ht₁ => ?_) fun hcan => ?_
    · refine after_fetch ht₁ (by omega) (fun hsnd t₂ ht₂ => ?_) fun hcan => ?_
      · refine after_fetch ht₂ hle (fun hthd t₃ ht₃ => ?_) fun hcan => ?_
        · have h8 : Args k esp 8 := hargs.append (by omega) hfst
          have h12 : Args k esp 12 := h8.append (by omega) hsnd
          exact hok (h12.append (by omega) hthd) t₃ ht₃
        · exact hnot fun h => hcan (h.drop (n := 12))
      · exact hnot fun h => hcan ((h.mono (by decide)).drop (n := 8))
    · exact hnot fun h => hcan ((h.mono (by decide)).drop (n := 4))
  · exact hnot (fun h => hout ⟨by have hle := h.1; omega, by have hle := h.1; omega⟩) t ht.accessed

end

/-- The handler reads the request and serves it, or ends the process. -/
theorem after_syscall_handler {Q : Option Int → Kernel → Prop} {E : Stop → Kernel → Prop}
    (hnone : k.request esp = none → ∀ t, Accessed k t 0 PHYS_BASE → E (.exited (-1)) t)
    (hsome : ∀ r, k.request esp = some r → ∀ t, Fetched k t → After (serve e r) t Q E) :
    After (syscall_handler esp e) k Q E := by
  unfold Kernel.request at hnone hsome
  refine after_validated (fun hle => ?_) fun hout => ?_
  · refine after_fetch (Fetched.refl k) hle (fun hcan t ht => ?_) fun hcan => ?_
    · have hargs : Args k esp 4 := ⟨hle, hcan⟩
      simp only [not_true, hargs, if_false] at hnone hsome
      dsimp only
      by_cases hexit : k.word esp = SYS_EXIT
      · simp only [if_pos hexit] at hnone hsome ⊢
        exact after_arg ht hargs (fun h => hsome _ (if_pos h)) fun h => hnone (if_neg h)
      by_cases hopen : k.word esp = SYS_OPEN
      · simp only [if_neg hexit, if_pos hopen] at hnone hsome ⊢
        exact after_arg ht hargs (fun h => hsome _ (if_pos h)) fun h => hnone (if_neg h)
      by_cases hwrite : k.word esp = SYS_WRITE
      · simp only [if_neg hexit, if_neg hopen, if_pos hwrite, if_pos (Or.inl hwrite)]
          at hnone hsome ⊢
        exact after_args ht hargs (fun h => hsome _ (if_pos h)) fun h => hnone (if_neg h)
      by_cases hread : k.word esp = SYS_READ
      · simp only [if_neg hexit, if_neg hopen, if_neg hwrite, if_pos hread, if_pos (Or.inr hread)]
          at hnone hsome ⊢
        exact after_args ht hargs (fun h => hsome _ (if_pos h)) fun h => hnone (if_neg h)
      have hneither : ¬ (k.word esp = SYS_WRITE ∨ k.word esp = SYS_READ) := not_or.2 ⟨hwrite, hread⟩
      by_cases hclose : k.word esp = SYS_CLOSE
      · simp only [if_neg hexit, if_neg hopen, if_neg hwrite, if_neg hread, if_neg hneither,
          if_pos hclose] at hnone hsome ⊢
        exact after_arg ht hargs (fun h => hsome _ (if_pos h)) fun h => hnone (if_neg h)
      simp only [if_neg hexit, if_neg hopen, if_neg hwrite, if_neg hread, if_neg hneither,
        if_neg hclose] at hsome ⊢
      exact hsome _ rfl t ht
    · have hargs : ¬ Args k esp 4 := fun h => hcan h.2
      exact hnone (if_pos hargs)
  · have hargs : ¬ Args k esp 4 := fun h => hout ⟨by have hle := h.1; omega, h.1⟩
    exact hnone (if_pos hargs) k (Accessed.refl k _ _)

end HwMemory

end Berk162
