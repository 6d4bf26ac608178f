import Berk162.HwMemory.Transfers

/-!
# UserStrings — strings of the user, in the kernel

`validate_string_in_user_region` reads a string to its end, so that whatever looks at the string
afterwards does not fault.  `filesys_open` is then the file system's own, on the name in user memory.
-/

namespace Berk162

namespace HwMemory

open Kern

variable {k k' : Kernel} {a lo n : Nat}

def Kernel.byte (k : Kernel) (a : Nat) : UInt8 := k.memory (a % WORD)

/-- The string at `a` is `name`, and it can be read with its null. -/
structure UserString (k : Kernel) (a : Nat) (name : CString) : Prop where
  can : ∀ j, j ≤ name.chars.length → Can false k (a + j)
  byte : ∀ j, j ≤ name.chars.length → k.byte (a + j) = name.chars.getD j 0

/-- The user's memory has been looked at, from `lo` on.  The file system may have done anything. -/
structure Looked (k k' : Kernel) (lo n : Nat) : Prop where
  memory : k'.memory = k.memory
  page : k'.page = k.page
  locks : k'.locks = k.locks
  console_lock_depth : k'.console_lock_depth = k.console_lock_depth
  blocks : k'.blocks = k.blocks
  open_file : k'.open_file = k.open_file
  touched : ∀ a, a ∈ k'.touched → a ∈ k.touched ∨ (lo ≤ a ∧ a < lo + n)

theorem Looked.refl (k : Kernel) (lo n : Nat) : Looked k k lo n :=
  ⟨rfl, rfl, rfl, rfl, rfl, rfl, fun _ ha => Or.inl ha⟩

theorem Looked.trans {k'' : Kernel} (h : Looked k k' lo n) (h' : Looked k' k'' lo n) :
    Looked k k'' lo n where
  memory := h'.memory.trans h.memory
  page := h'.page.trans h.page
  locks := h'.locks.trans h.locks
  console_lock_depth := h'.console_lock_depth.trans h.console_lock_depth
  blocks := h'.blocks.trans h.blocks
  open_file := h'.open_file.trans h.open_file
  touched a ha := (h'.touched a ha).elim (h.touched a) Or.inr

theorem Looked.set_fs (h : Looked k k' lo n) (s : FileSys) : Looked k { k' with fs := s } lo n :=
  ⟨h.memory, h.page, h.locks, h.console_lock_depth, h.blocks, h.open_file, h.touched⟩

theorem Accessed.looked (h : Accessed k k' lo n) (hmem : k'.memory = k.memory) : Looked k k' lo n :=
  ⟨hmem, h.page, h.locks, h.console_lock_depth, h.blocks, h.open_file, h.touched⟩

/-- A call with a string of the user has panicked. -/
structure Panicked (k k' : Kernel) (a n : Nat) (failed : Prop) (st : Stop) : Prop where
  panic : st = .panic
  looked : Looked k k' a n
  cause : a = NULL ∨ failed

theorem UserString.looked {name : CString} (h : UserString k a name) (hlooked : Looked k k' lo n) :
    UserString k' a name where
  can j hj := (Can.congr hlooked.page).2 (h.can j hj)
  byte j hj := by
    rw [Kernel.byte, hlooked.memory]
    exact h.byte j hj

/-- A function of the file system, which may panic. -/
theorem after_fs_cases {α : Type} {f : FileSys → Option (α × FileSys)} {Q : α → Kernel → Prop}
    {E : Stop → Kernel → Prop} (hsome : ∀ x s, f k.fs = some (x, s) → Q x { k with fs := s })
    (hnone : f k.fs = none → E .panic k) : After (fs f) k Q E := by
  cases hf : f k.fs with
  | none =>
      refine (after_of_error ?_).2 (hnone hf)
      unfold Kern.fs
      rw [hf]
  | some r =>
      exact (after_fs hf).2 (hsome r.1 r.2 hf)

/-! ## `strcmp` -/

variable {name : CString} {j : Nat}

theorem CString.drop_of_getD_ne (h : name.chars.getD j 0 ≠ 0) :
    j < name.chars.length ∧ name.chars.drop j = name.chars.getD j 0 :: name.chars.drop (j + 1) := by
  have hj : j < name.chars.length := by
    by_contra hge
    exact h (List.getD_eq_default _ _ (Nat.le_of_not_lt hge))
  refine ⟨hj, ?_⟩
  rw [List.getD_eq_getElem _ _ hj]
  exact List.drop_eq_getElem_cons hj

theorem CString.drop_of_getD_eq (h : name.chars.getD j 0 = 0) : name.chars.drop j = [] := by
  apply List.drop_eq_nil_of_le
  by_contra hlt
  rw [List.getD_eq_getElem _ _ (Nat.lt_of_not_le hlt)] at h
  exact name.no_null (h ▸ List.getElem_mem _)

theorem c_chars_cons {b : UInt8} (h : b ≠ 0) (bs : Bytes) : c_chars (b :: bs) = b :: c_chars bs :=
  List.takeWhile_cons_of_pos (decide_eq_true h)

theorem UserString.after_load (h : UserString k a name) (hj : j ≤ name.chars.length) :
    After (load (a + j)) k (fun c k' => Looked k k' a (name.chars.length + 1) ∧ k'.fs = k.fs ∧
      c = name.chars.getD j 0) fun _ _ => False := by
  refine (HwMemory.after_load k (a + j)).mono (fun c t ht => ?_) fun e t he => ?_
  · obtain ⟨⟨haccessed, _⟩, rfl, hmem⟩ := ht
    exact ⟨(haccessed.mono (Nat.le_add_right a j) (by omega)).looked hmem, haccessed.fs,
      h.byte j hj⟩
  · obtain ⟨_, _, i, hi, hcan⟩ := he
    obtain rfl := Nat.lt_one_iff.1 hi
    exact hcan (h.can j hj)

/-- From the character number `j` on: the rest of the name is compared. -/
theorem after_same_chars (h : UserString k a name) (hj : j ≤ name.chars.length) (bs : Bytes) :
    After (same_chars (a + j) bs) k
      (fun same k' => Looked k k' a (name.chars.length + 1) ∧ k'.fs = k.fs ∧
        (same = true ↔ name.chars.drop j = c_chars bs))
      fun _ _ => False := by
  induction bs generalizing k j with
  | nil =>
      refine after_bind.2 ((h.after_load hj).mono (fun c t ht => ?_) fun _ _ he => he)
      obtain ⟨hlooked, hfs, rfl⟩ := ht
      refine after_pure.2 ⟨hlooked, hfs, ?_⟩
      rw [decide_eq_true_iff]
      constructor
      · exact fun hzero => CString.drop_of_getD_eq hzero
      · intro hnil
        by_contra hne
        rw [(CString.drop_of_getD_ne hne).2] at hnil
        exact List.cons_ne_nil _ _ hnil
  | cons b bs ih =>
      refine after_bind.2 ((h.after_load hj).mono (fun c t ht => ?_) fun _ _ he => he)
      obtain ⟨hlooked, hfs, rfl⟩ := ht
      split
      · next hsame =>
        -- one more character that both have
        obtain ⟨hne, rfl⟩ := hsame
        obtain ⟨hlt, hdrop⟩ := CString.drop_of_getD_ne hne
        refine (ih (h.looked hlooked) hlt).mono (fun same u hu => ?_) fun _ _ he => he
        refine ⟨hlooked.trans hu.1, hu.2.1.trans hfs, hu.2.2.trans ?_⟩
        rw [hdrop, c_chars_cons hne, List.cons.injEq, and_iff_right rfl]
      · next hother =>
        refine after_pure.2 ⟨hlooked, hfs, ?_⟩
        rw [decide_eq_true_iff]
        by_cases hzero : name.chars.getD j 0 = 0
        · rw [CString.drop_of_getD_eq hzero, hzero]
          constructor
          · rintro rfl
            rfl
          · intro hnil
            by_contra hne
            rw [c_chars_cons (Ne.symm hne)] at hnil
            exact List.cons_ne_nil _ _ hnil.symm
        · refine iff_of_false (fun heq => hother ⟨hzero, heq⟩) fun heq => hother ⟨hzero, ?_⟩
          rw [(CString.drop_of_getD_ne hzero).2, c_chars, List.takeWhile_cons] at heq
          split at heq
          · exact (List.cons.inj heq).1
          · exact absurd heq (List.cons_ne_nil _ _)

theorem after_strcmp (h : UserString k a name) (bs : Bytes) : After (strcmp a bs) k
    (fun same k' => Looked k k' a (name.chars.length + 1) ∧ k'.fs = k.fs ∧
      same = (name.chars == c_chars bs))
    fun st k' => Panicked k k' a (name.chars.length + 1) False st := by
  rw [strcmp]
  split
  · next hnull => exact after_throw.2 ⟨rfl, Looked.refl k a _, Or.inl hnull⟩
  · refine (after_same_chars h (Nat.zero_le _) bs).mono (fun same t ht => ?_)
      fun _ _ he => he.elim
    refine ⟨ht.1, ht.2.1, Bool.eq_iff_iff.2 (ht.2.2.trans ?_)⟩
    rw [List.drop_zero, beq_iff_eq]

/-! ## Opening a file -/

variable {dir passes ofs : Nat} {e : DirEntry}

theorem after_same_name (h : UserString k a name) (e : DirEntry) : After (same_name a e) k
    (fun same k' => Looked k k' a (name.chars.length + 1) ∧ k'.fs = k.fs ∧
      same = FileSys.names name e)
    fun st k' => Panicked k k' a (name.chars.length + 1) False st := by
  rw [same_name, FileSys.names]
  cases e.in_use with
  | false => exact after_pure.2 ⟨Looked.refl k a _, rfl, rfl⟩
  | true => exact after_strcmp h e.name

/-- `lookup` with a name of the user does what it does with the same name in the kernel. -/
theorem after_lookup (h : UserString k a name) : After (Kern.lookup dir a passes ofs e) k
    (fun r k' => Looked k k' a (name.chars.length + 1) ∧ ∃ found e' ofs',
      FileSys.scan_entries dir (FileSys.names name) passes k.fs ofs e =
        some (found, e', ofs', k'.fs) ∧ r = if found = true then some e' else none)
    fun st k' => Panicked k k' a (name.chars.length + 1)
      (FileSys.scan_entries dir (FileSys.names name) passes k.fs ofs e = none) st := by
  induction passes generalizing k ofs e with
  | zero =>
      exact after_throw.2 ⟨rfl, Looked.refl k a _, Or.inr rfl⟩
  | succ passes ih =>
      refine after_bind.2 (after_fs_cases (fun bytes s hread => ?_) fun hread =>
        ⟨rfl, Looked.refl k a _, Or.inr ?_⟩)
      swap
      · rw [FileSys.scan_entries, hread]
        rfl
      have hstart : Looked k { k with fs := s } a (name.chars.length + 1) :=
        (Looked.refl k a _).set_fs s
      have hscan : FileSys.scan_entries dir (FileSys.names name) (passes + 1) k.fs ofs e =
          if bytes.length = sizeof_dir_entry then
            if FileSys.names name (e.load bytes) = true then some (true, e.load bytes, ofs, s)
            else FileSys.scan_entries dir (FileSys.names name) passes s
              (ofs + sizeof_dir_entry) (e.load bytes)
          else some (false, e.load bytes, ofs, s) := by
        rw [FileSys.scan_entries, hread]
        rfl
      rw [hscan]
      simp only []
      split
      · refine after_bind.2 ((after_same_name (h.looked hstart) (e.load bytes)).mono
          (fun same t ht => ?_) fun st t ht =>
            ⟨ht.panic, hstart.trans ht.looked, Or.inl (ht.cause.resolve_right id)⟩)
        obtain ⟨hlooked, hfs, rfl⟩ := ht
        replace hlooked := hstart.trans hlooked
        have hfs : s = t.fs := hfs.symm
        subst hfs
        split
        · exact after_pure.2 ⟨hlooked, true, e.load bytes, ofs, rfl, rfl⟩
        · refine (ih (h.looked hlooked)).mono (fun r u hu => ?_) fun st u hu => ?_
          · exact ⟨hlooked.trans hu.1, hu.2⟩
          · exact ⟨hu.panic, hlooked.trans hu.looked, hu.cause⟩
      · exact after_pure.2 ⟨hstart, false, e.load bytes, ofs, rfl, rfl⟩

/-- `dir_lookup` with a name of the user, likewise. -/
theorem after_dir_lookup (h : UserString k a name) : After (Kern.dir_lookup dir a e) k
    (fun r k' => Looked k k' a (name.chars.length + 1) ∧
      k.fs.dir_lookup dir name e = some (r, k'.fs))
    fun st k' => Panicked k k' a (name.chars.length + 1) (k.fs.dir_lookup dir name e = none) st := by
  have hrefl := Looked.refl k a (name.chars.length + 1)
  rw [Kern.dir_lookup]
  split
  · next hnull => exact after_bind.2 (after_throw.2 ⟨rfl, hrefl, Or.inl hnull⟩)
  refine after_bind.2 (after_fs_cases (fun i s hi => ?_) fun hi => ⟨rfl, hrefl, Or.inr ?_⟩)
  swap
  · rw [FileSys.dir_lookup, FileSys.lookup, FileSys.scan_dir, Option.map_eq_none_iff.1 hi]
    rfl
  obtain ⟨i, hget, heq⟩ := Option.map_eq_some_iff.1 hi
  obtain ⟨rfl, rfl⟩ := Prod.mk.inj heq
  have hdir : k.fs.dir_lookup dir name e =
      ((FileSys.scan_entries dir (FileSys.names name) (i.data.length / sizeof_dir_entry + 1)
        k.fs 0 e).bind fun r => if r.1 = true then r.2.2.2.inode_open r.2.1.inode_sector
          else some (none, r.2.2.2)) := by
    rw [FileSys.dir_lookup, FileSys.lookup, FileSys.scan_dir, hget]
    simp only [Option.bind_eq_bind, Option.bind_some]
    cases FileSys.scan_entries dir (FileSys.names name) (i.data.length / sizeof_dir_entry + 1)
        k.fs 0 e with
    | none => rfl
    | some r =>
        obtain ⟨found, e', ofs', s⟩ := r
        cases found <;> rfl
  rw [hdir]
  refine after_bind.2 ((after_lookup h).mono (fun found t ht => ?_) fun st t ht =>
    ⟨ht.panic, ht.looked, ht.cause.imp_right fun hscan => by rw [hscan, Option.bind_none]⟩)
  obtain ⟨hlooked, found, e', ofs', hscan, rfl⟩ := ht
  rw [hscan, Option.bind_some]
  cases found with
  | false =>
      exact after_pure.2 ⟨hlooked, rfl⟩
  | true =>
      exact after_fs_cases (fun r s hopen => ⟨hlooked.set_fs s, hopen⟩) fun hopen =>
        ⟨rfl, hlooked, Or.inr hopen⟩

/-- `filesys_open` with a name of the user, likewise. -/
theorem after_filesys_open (h : UserString k a name) : After (Kern.filesys_open a e) k
    (fun r k' => Looked k k' a (name.chars.length + 1) ∧ k.fs.filesys_open name e = some (r, k'.fs))
    fun st k' => Panicked k k' a (name.chars.length + 1) (k.fs.filesys_open name e = none) st := by
  have hrefl := Looked.refl k a (name.chars.length + 1)
  refine after_bind.2 (after_fs_cases (fun dir s hroot => ?_) fun hroot => ⟨rfl, hrefl, Or.inr ?_⟩)
  swap
  · rw [FileSys.filesys_open, hroot]
    rfl
  -- closing the directory and opening the file
  have hlast : ∀ (inode : Option Nat) (t : Kernel), Looked k t a (name.chars.length + 1) →
      After (do
        fs fun s => (s.dir_close dir).map fun s => ((), s)
        fs fun s => s.file_open inode) t
        (fun r k' => Looked k k' a (name.chars.length + 1) ∧
          ((t.fs.dir_close dir).bind fun s => s.file_open inode) = some (r, k'.fs))
        fun st k' => Panicked k k' a (name.chars.length + 1)
          (((t.fs.dir_close dir).bind fun s => s.file_open inode) = none) st := by
    intro inode t ht
    refine after_bind.2 (after_fs_cases (fun _ s hclose => ?_) fun hclose => ⟨rfl, ht, Or.inr ?_⟩)
    · obtain ⟨s', hclosed, heq⟩ := Option.map_eq_some_iff.1 hclose
      obtain ⟨-, rfl⟩ := Prod.mk.inj heq
      rw [hclosed]
      exact after_fs_cases (fun r s hopen => ⟨(ht.set_fs _).set_fs s, hopen⟩) fun hopen =>
        ⟨rfl, ht.set_fs _, Or.inr hopen⟩
    · rw [Option.map_eq_none_iff.1 hclose, Option.bind_none]
  rw [FileSys.filesys_open, hroot]
  cases dir with
  | none =>
      exact hlast none _ (hrefl.set_fs s)
  | some dir =>
      refine after_bind.2 ((after_dir_lookup (h.looked (hrefl.set_fs s))).mono
        (fun inode t ht => ?_) fun st t ht => ⟨ht.panic, (hrefl.set_fs s).trans ht.looked,
          ht.cause.imp_right fun hlookup => ?_⟩)
      · obtain ⟨hlooked, hlookup⟩ := ht
        change After _ t (fun r k' => _ ∧ (Option.bind (s.dir_lookup dir name e) _) = _)
          fun st k' => Panicked _ _ _ _ ((Option.bind (s.dir_lookup dir name e) _) = none) st
        have hlookup : s.dir_lookup dir name e = some (inode, t.fs) := hlookup
        rw [hlookup]
        exact hlast inode t ((hrefl.set_fs s).trans hlooked)
      · change Option.bind (s.dir_lookup dir name e) _ = none
        have hlookup : s.dir_lookup dir name e = none := hlookup
        rw [hlookup, Option.bind_none]

theorem after_open_file {Q : Option Nat → Kernel → Prop} {E : Stop → Kernel → Prop} :
    After open_file k Q E ↔ Q k.open_file k := Iff.rfl

theorem after_set_open_file {file : Option Nat} {Q : Unit → Kernel → Prop}
    {E : Stop → Kernel → Prop} :
    After (set_open_file file) k Q E ↔ Q () { k with open_file := file } := Iff.rfl

/-- A process has one file at most. -/
theorem after_syscall_open (h : UserString k a name) : After (syscall_open a e) k
    (fun _ k' => (k.open_file ≠ none ∧ k' = k) ∨
      k.open_file = none ∧ ∃ t, Looked k t a (name.chars.length + 1) ∧
        k.fs.filesys_open name e = some (k'.open_file, t.fs) ∧
        k' = { t with open_file := k'.open_file })
    fun st k' => Panicked k k' a (name.chars.length + 1) (k.fs.filesys_open name e = none) st := by
  refine after_bind.2 (after_open_file.2 ?_)
  cases hfile : k.open_file with
  | some file =>
      exact after_pure.2 (Or.inl ⟨Option.some_ne_none file, rfl⟩)
  | none =>
      refine after_bind.2 ((after_filesys_open h).mono (fun file t ht => ?_) fun _ _ he => he)
      refine after_bind.2 (after_set_open_file.2 ?_)
      cases file with
      | none => exact after_pure.2 (Or.inr ⟨rfl, t, ht.1, ht.2, rfl⟩)
      | some file => exact after_pure.2 (Or.inr ⟨rfl, t, ht.1, ht.2, rfl⟩)

/-! ## The validation of a string -/

/-- The first `n` bytes from `a` on can be read, and none is null. -/
def Chars (k : Kernel) (a n : Nat) : Prop := ∀ j, j < n → Can false k (a + j) ∧ k.byte (a + j) ≠ 0

theorem Chars.zero : Chars k a 0 := fun _ hj => absurd hj (Nat.not_lt_zero _)

theorem Chars.first (h : Chars k a (n + 1)) : Can false k a ∧ k.byte a ≠ 0 :=
  h 0 (Nat.succ_pos n)

theorem chars_succ : Chars k a (n + 1) ↔ (Can false k a ∧ k.byte a ≠ 0) ∧ Chars k (a + 1) n := by
  constructor
  · refine fun h => ⟨h.first, fun j hj => ?_⟩
    rw [Nat.add_assoc, Nat.add_comm 1]
    exact h (j + 1) (Nat.succ_lt_succ hj)
  · rintro ⟨hfirst, hrest⟩ j hj
    obtain _ | j := j
    · exact hfirst
    · rw [Nat.add_comm j 1, ← Nat.add_assoc]
      exact hrest j (Nat.lt_of_succ_lt_succ hj)

theorem Chars.congr (hmem : k'.memory = k.memory) (hpage : k'.page = k.page) :
    Chars k' a n ↔ Chars k a n := by
  unfold Chars Kernel.byte
  simp only [hmem, Can.congr hpage]

/-- The bytes that a search for the null behind at most `rest` characters looks at: a byte is looked
at if all before it are characters. -/
def Examined (k : Kernel) (a rest : Nat) (k' : Kernel) : Prop :=
  ∀ b, b ∈ k'.touched ↔ b ∈ k.touched ∨ ∃ j, j ≤ rest ∧ b = a + j ∧ Chars k a j

theorem examined_first (h : k'.touched = a :: k.touched)
    (hlast : n = 0 ∨ ¬ (Can false k a ∧ k.byte a ≠ 0)) : Examined k a n k' := by
  intro b
  rw [h, List.mem_cons, or_comm]
  refine or_congr_right ⟨fun hb => ⟨0, Nat.zero_le n, hb, Chars.zero⟩, ?_⟩
  rintro ⟨j, hj, rfl, hchars⟩
  obtain _ | j := j
  · rfl
  · have hn : n ≠ 0 := Nat.ne_of_gt (Nat.lt_of_lt_of_le (Nat.succ_pos j) hj)
    exact absurd hchars.first (hlast.resolve_left hn)

theorem Examined.next {k'' : Kernel} (h : k'.touched = a :: k.touched)
    (hmem : k'.memory = k.memory) (hpage : k'.page = k.page)
    (hchar : Can false k a ∧ k.byte a ≠ 0) (h' : Examined k' (a + 1) n k'') :
    Examined k a (n + 1) k'' := by
  intro b
  have hsplit : (∃ j, j ≤ n + 1 ∧ b = a + j ∧ Chars k a j) ↔
      b = a ∨ ∃ j, j ≤ n ∧ b = a + 1 + j ∧ Chars k' (a + 1) j := by
    constructor
    · rintro ⟨j, hj, rfl, hchars⟩
      obtain _ | j := j
      · exact Or.inl rfl
      · exact Or.inr ⟨j, Nat.le_of_succ_le_succ hj, by omega,
          (Chars.congr hmem hpage).2 (chars_succ.1 hchars).2⟩
    · rintro (rfl | ⟨j, hj, rfl, hchars⟩)
      · exact ⟨0, Nat.zero_le _, rfl, Chars.zero⟩
      · exact ⟨j + 1, Nat.succ_le_succ hj, by omega,
          chars_succ.2 ⟨hchar, (Chars.congr hmem hpage).1 hchars⟩⟩
  rw [h' b, h, List.mem_cons, hsplit, or_assoc, or_left_comm]

theorem load_touched (k : Kernel) (a : Nat) : After (load a) k
    (fun _ k' => k'.touched = a :: k.touched) fun _ k' => k'.touched = a :: k.touched := by
  unfold After load
  by_cases h : a % WORD < PHYS_BASE ∧ k.page (pg_no (a % WORD)) = none
  · simp only [if_pos h]
  · simp only [if_neg h]

/-- `strnlen` looks at one byte more than `maxlen` if all those before are characters. -/
theorem after_strnlen (k : Kernel) (string length rest : Nat) : After (Kern.strnlen string length rest) k
    (fun n k' => Accessed k k' (string + length) (rest + 1) ∧ k'.memory = k.memory ∧
      Examined k (string + length) rest k' ∧ ∃ j, j ≤ rest ∧ n = length + j ∧
        Chars k (string + length) j ∧ Can false k (string + length + j) ∧
        (j < rest → k.byte (string + length + j) = 0))
    fun e k' => e = .exited (-1) ∧ Accessed k k' (string + length) (rest + 1) ∧
      Examined k (string + length) rest k' := by
  have hload := fun k : Kernel => fun a => (after_load k a).and (load_touched k a)
  induction rest generalizing k length with
  | zero =>
      refine after_bind.2 ((hload k _).mono (fun c t ht => after_pure.2 ?_) fun e t he => ?_)
      · obtain ⟨⟨⟨haccessed, hcan⟩, -, hmem⟩, htouched⟩ := ht
        exact ⟨haccessed, hmem, examined_first htouched (Or.inl rfl), 0,
          Nat.le_refl 0, rfl, Chars.zero, hcan 0 Nat.zero_lt_one,
          fun h => absurd h (Nat.lt_irrefl 0)⟩
      · exact ⟨he.1.1, he.1.2.1, examined_first he.2 (Or.inl rfl)⟩
  | succ rest ih =>
      refine after_bind.2 ((hload k _).mono (fun c t ht => ?_) fun e t he => ?_)
      · obtain ⟨⟨⟨haccessed, hcan⟩, rfl, hmem⟩, htouched⟩ := ht
        have hcan := hcan 0 Nat.zero_lt_one
        split
        · next hne =>
          -- one more character
          have hchar : Can false k (string + length) ∧ k.byte (string + length) ≠ 0 := ⟨hcan, hne⟩
          have hfirst := haccessed.mono (Nat.le_refl _)
            (by omega : string + length + 1 ≤ string + length + (rest + 1 + 1))
          refine (ih t (length + 1)).mono (fun n u hu => ?_) fun e u hu => ?_
          · obtain ⟨hrest, hmem', hexamined, j, hj, rfl, hchars, hlast, hnull⟩ := hu
            have hadd : string + length + (j + 1) = string + (length + 1) + j := by omega
            refine ⟨hfirst.trans (hrest.mono (by omega) (by omega)), hmem'.trans hmem,
              hexamined.next htouched hmem haccessed.page hchar, j + 1, Nat.succ_le_succ hj, by omega,
              chars_succ.2 ⟨hchar, (Chars.congr hmem haccessed.page).1 hchars⟩, ?_, fun hlt => ?_⟩
            · rw [hadd]
              exact (Can.congr haccessed.page).1 hlast
            · rw [hadd, Kernel.byte, ← hmem]
              exact hnull (Nat.lt_of_succ_lt_succ hlt)
          · exact ⟨hu.1, hfirst.trans (hu.2.1.mono (by omega) (by omega)),
              hu.2.2.next htouched hmem haccessed.page hchar⟩
        · next hnull =>
          exact after_pure.2 ⟨haccessed.mono (Nat.le_refl _) (by omega), hmem,
            examined_first htouched (Or.inr fun h => hnull h.2), 0, Nat.zero_le _, rfl, Chars.zero,
            hcan, fun _ => not_not.1 hnull⟩
      · obtain ⟨⟨rfl, haccessed, i, hi, hcan⟩, htouched⟩ := he
        obtain rfl := Nat.lt_one_iff.1 hi
        exact ⟨rfl, haccessed.mono (Nat.le_refl _) (by omega),
          examined_first htouched (Or.inr fun h => hcan h.1)⟩

/-- From the character number `j` on: `strnlen` finds the null if `maxlen` lets it. -/
theorem UserString.after_strnlen (h : UserString k a name) {rest : Nat} (hj : j ≤ name.chars.length)
    (hrest : name.chars.length ≤ j + rest) : After (Kern.strnlen a j rest) k
      (fun n k' => Looked k k' a (name.chars.length + 1) ∧ k'.fs = k.fs ∧ n = name.chars.length)
      fun _ _ => False := by
  induction rest generalizing k j with
  | zero =>
      refine after_bind.2 ((h.after_load hj).mono (fun c t ht => after_pure.2 ?_) fun _ _ he => he)
      exact ⟨ht.1, ht.2.1, by omega⟩
  | succ rest ih =>
      refine after_bind.2 ((h.after_load hj).mono (fun c t ht => ?_) fun _ _ he => he)
      obtain ⟨hlooked, hfs, rfl⟩ := ht
      split
      · next hne =>
        obtain ⟨hlt, -⟩ := CString.drop_of_getD_ne hne
        refine (ih (h.looked hlooked) hlt (by omega)).mono (fun n u hu => ?_) fun _ _ he => he
        exact ⟨hlooked.trans hu.1, hu.2.1.trans hfs, hu.2.2⟩
      · next hnull =>
        have hnil := CString.drop_of_getD_eq (not_not.1 hnull)
        have hge := List.drop_eq_nil_iff.1 hnil
        exact after_pure.2 ⟨hlooked, hfs, Nat.le_antisymm hj hge⟩

end HwMemory

end Berk162
