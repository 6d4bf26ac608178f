import Berk162.HwMemory.Handler

/-!
# UserAccess — the addresses that system calls access

A buffer is checked with its length before it is accessed, so that all of it lies below `PHYS_BASE`.
A string is read by the check itself, which looks at one byte more than it may.
-/

namespace Berk162

namespace HwMemory

open Kern

/-! ## What a program touches -/

/-- Only addresses in `A` were accessed between `k` and `k'`. -/
def Grown (A : Nat → Prop) (k k' : Kernel) : Prop := ∀ a ∈ k'.touched, a ∈ k.touched ∨ A a

/-- Whether it returns or stops, the program accesses only addresses in `A`. -/
def Touches {α : Type} (A : Nat → Prop) (x : Kern α) : Prop :=
  ∀ k, After x k (fun _ => Grown A k) fun _ => Grown A k

variable {α β : Type} {A : Nat → Prop} {k k' : Kernel} {x : Kern α} {f : α → Kern β}
  {a buffer size n : Nat}

theorem Grown.of_eq (h : k'.touched = k.touched) : Grown A k k' := fun _ ha => Or.inl (h ▸ ha)

theorem Grown.trans {k'' : Kernel} (h : Grown A k k') (h' : Grown A k' k'') : Grown A k k'' :=
  fun a ha => (h' a ha).elim (h a) Or.inr

theorem Accessed.grown {lo : Nat} (h : Accessed k k' lo n)
    (hA : ∀ a, lo ≤ a → a < lo + n → A a) : Grown A k k' := fun a ha =>
  (h.touched a ha).imp_right fun hin => hA a hin.1 hin.2

theorem Looked.grown {lo : Nat} (h : Looked k k' lo n)
    (hA : ∀ a, lo ≤ a → a < lo + n → A a) : Grown A k k' := fun a ha =>
  (h.touched a ha).imp_right fun hin => hA a hin.1 hin.2

theorem touches_pure (v : α) : Touches A (pure v : Kern α) := fun _ => Grown.of_eq rfl

theorem touches_PANIC : Touches A (PANIC : Kern α) := fun _ => Grown.of_eq rfl

theorem touches_bind (h : Touches A x) (hf : ∀ v, Touches A (f v)) : Touches A (x >>= f) := fun k =>
  (h k).bind fun v t ht => (hf v t).mono (fun _ _ hu => ht.trans hu) fun _ _ hu => ht.trans hu

theorem touches_fs (g : FileSys → Option (α × FileSys)) : Touches A (fs g) := fun _ =>
  after_fs_cases (fun _ _ _ => Grown.of_eq rfl) fun _ => Grown.of_eq rfl

theorem touches_lock_acquire (l : KernelLock) : Touches A (lock_acquire l) := by
  intro k
  unfold After lock_acquire
  by_cases h : l ∈ k.locks
  · simp only [if_pos h]
    exact Grown.of_eq rfl
  · simp only [if_neg h]
    exact Grown.of_eq rfl

theorem touches_lock_release (l : KernelLock) : Touches A (lock_release l) := by
  intro k
  unfold After lock_release
  by_cases h : l ∈ k.locks
  · simp only [if_pos h]
    exact Grown.of_eq rfl
  · simp only [if_neg h]
    exact Grown.of_eq rfl

theorem touches_acquire_console : Touches A acquire_console := by
  intro k
  have hacquire := touches_lock_acquire (A := A) .console k
  unfold After acquire_console
  by_cases h : KernelLock.console ∈ k.locks
  · simp only [if_pos h]
    exact Grown.of_eq rfl
  · simp only [if_neg h]
    exact hacquire

theorem touches_release_console : Touches A release_console := by
  intro k
  have hrelease := touches_lock_release (A := A) .console k
  unfold After release_console
  by_cases h : k.console_lock_depth > 0
  · simp only [if_pos h]
    exact Grown.of_eq rfl
  · simp only [if_neg h]
    exact hrelease

theorem touches_malloc : Touches A malloc := by
  intro k
  refine after_malloc.2 ?_
  split
  · exact Grown.of_eq rfl
  · exact Grown.of_eq rfl

theorem touches_free : Touches A free := fun _ => Grown.of_eq rfl

theorem touches_load_bytes (h : ∀ b, a ≤ b → b < a + n → A b) : Touches A (load_bytes a n) :=
  fun k => (after_load_bytes k a n).mono (fun _ _ ht => ht.1.1.grown h) fun _ _ ht => ht.2.1.grown h

theorem touches_store_bytes {bs : Bytes} (h : ∀ b, a ≤ b → b < a + bs.length → A b) :
    Touches A (store_bytes a bs) :=
  fun k => (after_store_bytes k a bs).mono (fun _ _ ht => ht.1.grown h) fun _ _ ht => ht.2.1.grown h

theorem touches_memcpy_to {bs : Bytes} (h : ∀ b, a ≤ b → b < a + bs.length → A b) :
    Touches A (memcpy_to a bs) := by
  rw [memcpy_to]
  split
  · exact touches_PANIC
  · exact touches_store_bytes h

theorem touches_memcpy_from (h : ∀ b, a ≤ b → b < a + n → A b) : Touches A (memcpy_from a n) := by
  rw [memcpy_from]
  split
  · exact touches_PANIC
  · exact touches_load_bytes h

theorem touches_put_chars (h : ∀ b, a ≤ b → b < a + n → A b) : Touches A (put_chars a n) :=
  fun k => (after_put_chars k a n).mono (fun _ _ ht => ht.1.grown h) fun _ _ ht => ht.2.1.grown h

/-! ## Transfers -/

theorem touches_putbuf (h : ∀ b, buffer ≤ b → b < buffer + n → A b) : Touches A (putbuf buffer n) :=
  touches_bind touches_acquire_console fun _ =>
    touches_bind (touches_put_chars h) fun _ => touches_release_console

theorem touches_read_sector (sec_no : Nat) : Touches A (read_sector sec_no) :=
  touches_bind (touches_fs _) fun _ => touches_bind (touches_lock_acquire _) fun _ =>
    touches_bind (touches_lock_release _) fun _ => touches_pure _

theorem touches_write_sector (sec_no : Nat) (sector : Sector) :
    Touches A (write_sector sec_no sector) :=
  touches_bind (touches_fs _) fun _ => touches_bind (touches_lock_acquire _) fun _ =>
    touches_lock_release _

/-- A way to move bytes that accesses no others. -/
structure Careful (A : Nat → Prop) (whole : Nat → Nat → Kern Unit)
    (piece : Nat → Nat → Nat → Nat → Kern Unit) : Prop where
  whole : ∀ sec_no buffer, (∀ b, buffer ≤ b → b < buffer + BLOCK_SECTOR_SIZE → A b) →
    Touches A (whole sec_no buffer)
  piece : ∀ sec_no ofs chunk buffer, (∀ b, buffer ≤ b → b < buffer + chunk → A b) →
    Touches A (piece sec_no ofs chunk buffer)

theorem careful_reader : Careful A ide_read read_piece where
  whole sec_no buffer h := touches_bind (touches_fs _) fun sector =>
    touches_bind (touches_lock_acquire _) fun _ => by
      refine touches_bind (touches_store_bytes ?_) fun _ => touches_lock_release _
      rwa [sector.length_bytes]
  piece sec_no ofs chunk buffer h := touches_bind (touches_read_sector _) fun sector =>
    touches_memcpy_to fun b hb hlt => h b hb (by
      have hle := List.length_take_le chunk (sector.bytes.drop ofs)
      omega)

theorem careful_writer : Careful A ide_write write_piece where
  whole sec_no buffer h := touches_bind (touches_fs _) fun _ =>
    touches_bind (touches_lock_acquire _) fun _ => touches_bind (touches_load_bytes h) fun _ =>
      touches_bind (touches_fs _) fun _ => touches_lock_release _
  piece sec_no ofs chunk buffer h := by
    have hrest : ∀ sector : Sector, Touches A (do
        let bytes ← memcpy_from buffer chunk
        write_sector sec_no (sector.memcpy ofs bytes)) := fun sector =>
      touches_bind (touches_memcpy_from h) fun _ => touches_write_sector _ _
    rw [write_piece]
    split
    · exact touches_bind (touches_read_sector _) hrest
    · exact touches_bind (touches_pure _) hrest

theorem touches_transfer_loop {whole : Nat → Nat → Kern Unit}
    {piece : Nat → Nat → Nat → Nat → Kern Unit} (hmover : Careful A whole piece)
    (data : InodeDisk) (bounce : Bool) (offset : Nat)
    (h : ∀ b, buffer ≤ b → b < buffer + size → A b) :
    Touches A (transfer_loop whole piece data bounce buffer size offset) := by
  induction hn : size using Nat.strong_induction_on generalizing bounce buffer size offset with
  | _ n ih =>
      have hle := chunk_size_le data size offset
      have hrest : chunk_size data size offset ≠ 0 → ∀ bounce, Touches A
          (transfer_loop whole piece data bounce (buffer + chunk_size data size offset)
            (size - chunk_size data size offset) (offset + chunk_size data size offset)) := by
        intro hne bounce
        exact ih _ (by omega) bounce _ (fun b hb hlt => h b (by omega) (by omega)) rfl
      have hfirst : ∀ b, buffer ≤ b → b < buffer + chunk_size data size offset → A b :=
        fun b hb hlt => h b hb (by omega)
      rw [← hn, transfer_loop]
      by_cases hzero : chunk_size data size offset = 0
      · simp only [hzero, if_true]
        cases bounce with
        | true => exact touches_bind touches_free fun _ => touches_pure _
        | false => exact touches_pure _
      · simp only [hzero, if_false]
        split
        · next hwhole =>
          rw [hwhole.2] at hfirst
          exact touches_bind (hmover.whole _ _ hfirst) fun _ =>
            touches_bind (hrest hzero _) fun _ => touches_pure _
        · have hpiece : Touches A (do
              piece (byte_to_sector data offset) (offset % BLOCK_SECTOR_SIZE)
                (chunk_size data size offset) buffer
              let n ← transfer_loop whole piece data true (buffer + chunk_size data size offset)
                (size - chunk_size data size offset) (offset + chunk_size data size offset)
              return chunk_size data size offset + n) :=
            touches_bind (hmover.piece _ _ _ _ hfirst) fun _ =>
              touches_bind (hrest hzero _) fun _ => touches_pure _
          cases bounce with
          | true => exact hpiece
          | false =>
              refine touches_bind touches_malloc fun ok => ?_
              cases ok with
              | true => exact hpiece
              | false => exact touches_pure _

theorem touches_file_read (file : Nat) (h : ∀ b, buffer ≤ b → b < buffer + size → A b) :
    Touches A (file_read file buffer size) := by
  have hle := off_t_size_le size
  refine touches_bind (touches_fs _) fun f => touches_bind ?_ fun _ =>
    touches_bind (touches_fs _) fun _ => touches_pure _
  exact touches_bind (touches_fs _) fun i =>
    touches_transfer_loop careful_reader _ _ _ fun b hb hlt => h b hb (by omega)

theorem touches_file_write (file : Nat) (h : ∀ b, buffer ≤ b → b < buffer + size → A b) :
    Touches A (file_write file buffer size) := by
  have hle := off_t_size_le size
  refine touches_bind (touches_fs _) fun f => touches_bind ?_ fun _ =>
    touches_bind (touches_fs _) fun _ => touches_pure _
  refine touches_bind (touches_fs _) fun i => ?_
  split
  · exact touches_pure _
  · exact touches_transfer_loop careful_writer _ _ _ fun b hb hlt => h b hb (by omega)

theorem touches_open_file : Touches A open_file := fun _ => Grown.of_eq rfl

theorem touches_set_open_file (file : Option Nat) : Touches A (set_open_file file) := fun _ =>
  Grown.of_eq rfl

theorem touches_syscall_write (fd : Nat) (h : ∀ b, buffer ≤ b → b < buffer + size → A b) :
    Touches A (syscall_write fd buffer size) := by
  rw [syscall_write]
  split
  · exact touches_bind (touches_putbuf h) fun _ => touches_pure _
  · refine touches_bind touches_open_file fun file => ?_
    cases file with
    | none => exact touches_pure _
    | some file =>
        dsimp only
        split
        · exact touches_pure _
        · exact touches_bind (touches_file_write file h) fun _ => touches_pure _

theorem touches_syscall_read (fd : Nat) (h : ∀ b, buffer ≤ b → b < buffer + size → A b) :
    Touches A (syscall_read fd buffer size) := by
  refine touches_bind touches_open_file fun file => ?_
  cases file with
  | none => exact touches_pure _
  | some file =>
      dsimp only
      split
      · exact touches_pure _
      · exact touches_bind (touches_file_read file h) fun _ => touches_pure _

theorem touches_syscall_close (fd : Nat) : Touches A (syscall_close fd) := by
  refine touches_bind touches_open_file fun file => ?_
  cases file with
  | none => exact touches_pure _
  | some file =>
      dsimp only
      split
      · exact touches_bind (touches_fs _) fun _ => touches_set_open_file none
      · exact touches_pure _

/-! ## System calls -/

/-- Whether the process goes on or not. -/
def Both (x : Kern α) (k : Kernel) (P : Kernel → Prop) : Prop := After x k (fun _ => P) fun _ => P

/-- The user's memory below `PHYS_BASE`. -/
def Below (a : Nat) : Prop := a < PHYS_BASE

theorem touches_serve_buffer {g : Unit → Kern α} (k : Kernel)
    (h : (∀ b, buffer ≤ b → b < buffer + size → Below b) → Touches Below (g ())) :
    Both (validate_buffer_in_user_region buffer size >>= g) k (Grown Below k) := by
  refine after_validated (fun hle => ?_) fun _ => Grown.of_eq rfl
  exact h (fun b _ hlt => Nat.lt_of_lt_of_le hlt hle) k

/-- What is accessed for a request, but for the byte behind the memory of the user. -/
theorem serve_touches (k : Kernel) (e : DirEntry) (r : Request) : Both (serve e r) k
    (Grown (fun a => Below a ∨ ∃ filename, r = .sys_open filename ∧ filename < PHYS_BASE ∧
      Chars k filename (PHYS_BASE - filename)) k) := by
  have hbelow : ∀ {t}, Grown Below k t → Grown (fun a => Below a ∨ ∃ filename,
      r = .sys_open filename ∧ filename < PHYS_BASE ∧ Chars k filename (PHYS_BASE - filename)) k t :=
    fun h a ha => (h a ha).imp_right Or.inl
  cases r with
  | sys_exit status => exact Grown.of_eq rfl
  | sys_open filename =>
      refine after_bind.2 ((after_validate_string k filename).mono (fun _ t ht => ?_)
        fun _ t ht => ?_)
      · -- the string ends below `PHYS_BASE`
        obtain ⟨haccessed, hmem, name, hname, hlt⟩ := ht
        have hstring : Grown Below k t := haccessed.grown fun b _ hb => by unfold Below; omega
        have hopened : ∀ {u}, Looked t u filename (name.chars.length + 1) → Grown Below k u :=
          fun hu => hstring.trans (hu.grown fun b _ hb => by unfold Below; omega)
        refine after_bind.2 ((after_syscall_open (hname.looked (haccessed.looked hmem))).mono
          (fun _ u hu => after_pure.2 (hbelow ?_)) fun _ u hu => hbelow (hopened hu.2))
        rcases hu with ⟨-, rfl⟩ | ⟨-, v, hv, -, hu⟩
        · exact hstring
        · have hgrown : Grown Below k v := hopened hv
          rw [hu]
          exact hgrown
      · obtain ⟨-, haccessed, hexamined⟩ := ht
        intro b hb
        by_cases hlt : filename < PHYS_BASE
        · rw [if_pos hlt] at hexamined
          refine ((hexamined b).1 hb).imp_right ?_
          rintro ⟨j, hj, rfl, hchars⟩
          by_cases hlast : filename + j < PHYS_BASE
          · exact Or.inl hlast
          · obtain rfl : j = PHYS_BASE - filename := by omega
            exact Or.inr ⟨filename, rfl, hlt, hchars⟩
        · rw [if_neg hlt] at hexamined
          exact Or.inl (hexamined ▸ hb)
  | sys_write fd buffer size =>
      refine After.mono (touches_serve_buffer k fun h => ?_) (fun _ _ => hbelow) fun _ _ => hbelow
      exact touches_bind (touches_syscall_write fd h) fun _ => touches_pure _
  | sys_read fd buffer size =>
      refine After.mono (touches_serve_buffer k fun h => ?_) (fun _ _ => hbelow) fun _ _ => hbelow
      exact touches_bind (touches_syscall_read fd h) fun _ => touches_pure _
  | sys_close fd =>
      refine After.mono (touches_bind (touches_syscall_close fd) (fun _ => touches_pure _) k)
        (fun _ _ => hbelow) fun _ _ => hbelow
  | unimplemented => exact Grown.of_eq rfl

/-- The addresses that a system call accesses. -/
def accessed (x : Kern α) (k : Kernel) : List Nat :=
  match x { k with touched := [] } with
  | .ok _ t => t.touched
  | .error _ t => t.touched

/-- The memory that a request is about. -/
def Request.Wants (k : Kernel) : Request → Nat → Prop
  | .sys_open filename, a => ∃ j, a = filename + j ∧ Chars k filename j
  | .sys_write _ buffer size, a | .sys_read _ buffer size, a => buffer ≤ a ∧ a < buffer + size
  | _, _ => False

/-- Only the user's memory is accessed.  The process ends if the arguments, or what they are about,
are not all of them there. -/
structure Guarded (k : Kernel) (esp : Nat) (e : DirEntry) : Prop where
  below : ∀ a ∈ accessed (syscall_handler esp e) k, a < PHYS_BASE
  unread : k.request esp = none → ∃ t, syscall_handler esp e k = .error (.exited (-1)) t
  above : ∀ r, k.request esp = some r → (∃ a, r.Wants k a ∧ PHYS_BASE ≤ a) →
    ∃ t, syscall_handler esp e k = .error (.exited (-1)) t

/-- The name of a file to be opened goes up to `PHYS_BASE`. -/
def OpensPast (k : Kernel) (esp : Nat) : Prop :=
  ∃ filename, k.request esp = some (.sys_open filename) ∧ filename < PHYS_BASE ∧
    Chars k filename (PHYS_BASE - filename)

theorem after_accessed (x : Kern α) (k : Kernel) {P : List Nat → Prop} :
    Both x { k with touched := [] } (fun t => P t.touched) ↔ P (accessed x k) := by
  unfold Both After accessed
  cases x { k with touched := [] } with
  | ok v t => exact Iff.rfl
  | error st t => exact Iff.rfl

theorem killed_iff (x : Kern α) (k : Kernel) :
    After x k (fun _ _ => False) (fun st _ => st = .exited (-1)) ↔
      ∃ t, x k = .error (.exited (-1)) t := by
  unfold After
  cases x k with
  | ok v t => exact iff_of_false id fun ⟨t, h⟩ => nomatch h
  | error st t =>
      constructor
      · rintro rfl
        exact ⟨t, rfl⟩
      · rintro ⟨t', h⟩
        cases h
        rfl

/-- A name that goes up to `PHYS_BASE` is found out when the byte there has been read. -/
theorem after_unended {filename : Nat} (k : Kernel) (e : DirEntry) (hlt : filename < PHYS_BASE)
    (hchars : Chars k filename (PHYS_BASE - filename)) :
    After (serve e (.sys_open filename)) k (fun _ _ => False)
      fun st t => st = .exited (-1) ∧ PHYS_BASE ∈ t.touched := by
  refine after_bind.2 ((after_validate_string k filename).mono (fun _ t ht => ?_) fun st t ht => ?_)
  · obtain ⟨-, -, name, hname, hend⟩ := ht
    refine ((hchars name.chars.length (by omega)).2 ?_).elim
    rw [hname.byte _ (Nat.le_refl _), List.getD_eq_default _ _ (Nat.le_refl _)]
  · obtain ⟨rfl, -, hexamined⟩ := ht
    rw [if_pos hlt] at hexamined
    have hlast := (Nat.add_sub_cancel' hlt.le).symm
    exact ⟨rfl, (hexamined _).2 (Or.inr ⟨_, Nat.le_refl _, hlast, hchars⟩)⟩

theorem Fetched.chars (h : Fetched k k') {a n : Nat} : Chars k' a n ↔ Chars k a n :=
  Chars.congr h.memory h.accessed.page

/-- The byte behind the user's memory is accessed on such a request, and no other. -/
theorem accessed_below_iff (k : Kernel) (esp : Nat) (e : DirEntry) :
    (∀ a ∈ accessed (syscall_handler esp e) k, a < PHYS_BASE) ↔ ¬ OpensPast k esp := by
  constructor
  · rintro hbelow ⟨filename, hrequest, hlt, hchars⟩
    have hmem : PHYS_BASE ∈ accessed (syscall_handler esp e) k := by
      refine (after_accessed _ k (P := fun l => PHYS_BASE ∈ l)).1 (after_syscall_handler
        (fun hnone => absurd (hrequest.symm.trans hnone) (Option.some_ne_none _)) fun r hr t ht => ?_)
      obtain rfl := Option.some.inj (hrequest.symm.trans hr)
      exact (after_unended t e hlt (ht.chars.2 hchars)).mono (fun _ _ h => h.elim) fun _ _ h => h.2
    exact Nat.lt_irrefl _ (hbelow _ hmem)
  · intro hnot
    refine (after_accessed _ k (P := fun l => ∀ a ∈ l, a < PHYS_BASE)).1 (after_syscall_handler
      (fun _ t ht a ha => ?_) fun r hr t ht => ?_)
    · have hin := ((ht.touched a ha).resolve_left (List.not_mem_nil)).2
      rwa [Nat.zero_add] at hin
    · have hserve : ∀ {u}, Grown (fun a => Below a ∨ ∃ filename, r = .sys_open filename ∧
          filename < PHYS_BASE ∧ Chars t filename (PHYS_BASE - filename)) t u →
          ∀ a ∈ u.touched, a < PHYS_BASE := by
        intro u hu a ha
        rcases hu a ha with ha | ha | ⟨filename, rfl, hlt, hchars⟩
        · have hin := ((ht.accessed.touched a ha).resolve_left (List.not_mem_nil)).2
          rwa [Nat.zero_add] at hin
        · exact ha
        · exact absurd ⟨filename, hr, hlt, ht.chars.1 hchars⟩ hnot
      exact (serve_touches t e r).mono (fun _ _ => hserve) fun _ _ => hserve

/-- A request for memory that is not the user's ends the process. -/
theorem killed_of_wants {r : Request} (k : Kernel) (e : DirEntry) (h : r.Wants k a)
    (hle : PHYS_BASE ≤ a) :
    After (serve e r) k (fun _ _ => False) fun st _ => st = .exited (-1) := by
  have hbuffer : ∀ {buffer size : Nat} {g : Unit → Kern (Option Int)},
      buffer ≤ a ∧ a < buffer + size → After (validate_buffer_in_user_region buffer size >>= g) k
        (fun _ _ => False) fun st _ => st = .exited (-1) := by
    intro buffer size g hin
    exact after_validated (fun hbelow => by omega) fun _ => rfl
  cases r with
  | sys_exit status => exact h.elim
  | sys_open filename =>
      obtain ⟨j, rfl, hchars⟩ := h
      by_cases hlt : filename < PHYS_BASE
      · exact (after_unended k e hlt fun i hi => hchars i (by omega)).mono (fun _ _ h => h)
          fun _ _ h => h.1
      · refine after_bind.2 ((after_validate_string k filename).mono (fun _ t ht => ?_)
          fun st t ht => ht.1)
        obtain ⟨-, -, name, -, hend⟩ := ht
        omega
  | sys_write fd buffer size => exact hbuffer h
  | sys_read fd buffer size => exact hbuffer h
  | sys_close fd => exact h.elim
  | unimplemented => exact h.elim

theorem Request.wants_fetched {r : Request} (h : Fetched k k') : r.Wants k' a ↔ r.Wants k a := by
  cases r with
  | sys_open filename =>
      unfold Request.Wants
      simp only [h.chars]
  | sys_exit status | sys_write fd buffer size | sys_read fd buffer size | sys_close fd
  | unimplemented => exact Iff.rfl

theorem syscall_handler_guarded_iff (k : Kernel) (esp : Nat) (e : DirEntry) :
    Guarded k esp e ↔ ¬ OpensPast k esp := by
  refine ⟨fun h => (accessed_below_iff k esp e).1 h.below, fun h => ?_⟩
  refine ⟨(accessed_below_iff k esp e).2 h, fun hnone => ?_, fun r hr hwants => ?_⟩
  · refine (killed_iff _ k).1 (after_syscall_handler (fun _ _ _ => rfl) fun r hr _ _ => ?_)
    exact absurd (hnone.symm.trans hr) (Option.some_ne_none r).symm
  · obtain ⟨a, hwants, hle⟩ := hwants
    refine (killed_iff _ k).1 (after_syscall_handler (fun _ _ _ => rfl) fun r' hr' t ht => ?_)
    obtain rfl := Option.some.inj (hr.symm.trans hr')
    exact killed_of_wants t e ((Request.wants_fetched ht).2 hwants) hle

/-- A process whose stack asks to open the file with the name at the last byte of user memory, which
is not null. -/
def unended_name : Kernel where
  memory a := if a = 0xbffffff0 then 6 else if a < 0xbffffff4 then 0 else
    if a = 0xbffffff7 then 0xbf else 0xff
  page _ := some true
  locks := []
  console_lock_depth := 0
  blocks := 0
  fs := ⟨⟨[], .filesys, 64, sixty_four_lt, fun _ => Sector.ofBytes fun _ => 0⟩, fun _ => true,
    Store.empty, Store.empty, ⟨64, fun _ => 0⟩, none⟩
  open_file := none
  touched := []

theorem syscall_open_reads_kernel_memory :
    ¬ Guarded unended_name 0xbffffff0
      ⟨0, List.replicate (NAME_MAX + 1) 0, List.length_replicate, false⟩ := by
  have hopens : OpensPast unended_name 0xbffffff0 :=
    ⟨0xbfffffff, by decide +kernel, by decide, fun j hj => by
      obtain rfl := Nat.lt_one_iff.1 hj
      decide +kernel⟩
  exact fun h => (accessed_below_iff _ _ _).1 h.below hopens

end HwMemory

end Berk162
