import Berk162.Filesys.Archive
import Berk162.Filesys.FsFileCalls

/-!
# FsutilAppend — `fsutil_append` adds a file to the archive

What one call does, from opening the file to closing it, and then a list of calls: the files lie on
the device one after the other, and the file system stands for the same file map.
-/

namespace Berk162

variable {s t : FileSys} {m : FileMap} {u : Fsutil} {dst dst' dst'' : Block} {i pos k sector : Nat}
  {x : ArchiveFile}

/-! ## Panics and devices -/

@[simp] theorem call_some {α : Type} (a : α) : call (some a) = .ok a := rfl

theorem ok_bind {α β : Type} (a : α) (f : α → Except FsutilPanic β) :
    ((Except.ok a : Except FsutilPanic α) >>= f) = f a := rfl

/-- `dev'` is `dev` but for the sectors from `k` on. -/
structure SameBelow (dev : Block) (k : Nat) (dev' : Block) : Prop where
  size : dev'.size = dev.size
  type : dev'.type = dev.type
  sectors : ∀ a, a < k → dev'.sectors a = dev.sectors a

theorem SameBelow.refl (dev : Block) (k : Nat) : SameBelow dev k dev := ⟨rfl, rfl, fun _ _ => rfl⟩

theorem SameBelow.trans {k' : Nat} (h : SameBelow dst k dst') (h' : SameBelow dst' k' dst'')
    (hle : k ≤ k') : SameBelow dst k dst'' :=
  ⟨h'.size.trans h.size, h'.type.trans h.type,
    fun a ha => (h'.sectors a (by omega)).trans (h.sectors a ha)⟩

/-- A write to a sector behind `k`. -/
theorem SameBelow.write (h : SameBelow dst k dst') (sector : Nat) (hk : k ≤ sector)
    (hsector : sector < dst.size) (htype : dst.type ≠ .foreign) (buffer : Sector) :
    block_write dst' sector buffer = some (dst'.store sector buffer) ∧
      SameBelow dst k (dst'.store sector buffer) := by
  refine ⟨block_write_eq buffer (by rw [h.size]; exact hsector) (by rw [h.type]; exact htype),
    h.size, h.type, fun a ha => ?_⟩
  rw [Block.store_sectors_of_ne _ _ (by omega), h.sectors a ha]

/-- A sector number on the device does not wrap. -/
theorem next_sector {dev : Block} (h : sector < dev.size) : size_add sector 1 = sector + 1 := by
  have hlt := dev.size_lt
  exact size_add_eq (by omega)

theorem Refines.malloc (h : Refines s m) :
    ∃ t, s.malloc = (true, t) ∧ Refines t m ∧ t.free_map = s.free_map := by
  have hquiet : Quiet s (s.setMem s.mem.malloc.2) := Quiet.of_mem fun hs => hs.tail
  have hb := h.stable.toBetween
  exact ⟨_, FsInv.malloc_eq (h.stable.ample 0),
    h.of_quiet hquiet ⟨hb.inv.set_mem _, hb.user.of_same hb.inv hquiet.same_files⟩, rfl⟩

/-! ## The data -/

theorem append_data_spec (file_name : CString) {src : Nat} (rounds : Nat) :
    ∀ (dst : Block) (sector : Nat) {s : FileSys} {m : FileMap} {pos : Nat}, Refines s m →
      m.handles.lookup src = some (i, pos) → pos ≤ (m.data i).length →
      (m.data i).length - pos ≤ rounds → dst.type ≠ .foreign →
      sector + data_sectors ((m.data i).length - pos) ≤ dst.size →
      ∃ t dst', append_data file_name src rounds s dst sector ((m.data i).length - pos) =
          .ok (t, dst', sector + data_sectors ((m.data i).length - pos)) ∧
        Refines t (m.setHandle src i (m.data i).length) ∧
        HoldsData dst' sector ((m.data i).drop pos) ∧ SameBelow dst sector dst' := by
  induction rounds with
  | zero =>
      intro dst sector s m pos h hf hle hrounds _ _
      obtain rfl : pos = (m.data i).length := by omega
      refine ⟨s, dst, ?_, ?_, fun j hj => ?_, SameBelow.refl _ _⟩
      · rw [Nat.sub_self]
        rfl
      · rwa [FileMap.setHandle_self hf]
      · rw [List.drop_length] at hj
        exact absurd hj (Nat.not_lt_zero j)
  | succ rounds ih =>
      intro dst sector s m pos h hf hle hrounds htype hroom
      rcases Nat.eq_or_lt_of_le hle with heq | hlt
      · -- nothing is left
        obtain rfl : pos = (m.data i).length := heq
        refine ⟨s, dst, ?_, ?_, fun j hj => ?_, SameBelow.refl _ _⟩
        · rw [Nat.sub_self]
          rfl
        · rwa [FileMap.setHandle_self hf]
        · rw [List.drop_length] at hj
          exact absurd hj (Nat.not_lt_zero j)
      · obtain ⟨rest, hrest⟩ : ∃ rest, rest = (m.data i).drop pos := ⟨_, rfl⟩
        have hlen : rest.length = (m.data i).length - pos := by rw [hrest, List.length_drop]
        have hpos : 0 < rest.length := by omega
        have hcopy := copy_size_eq rest.length
        rw [← hlen] at hroom hrounds ⊢
        rw [data_sectors_step hpos] at hroom ⊢
        have hsector : sector < dst.size := by omega
        rcases h.file_read hf (copy_size rest.length) with ⟨s₁, hread, h₁⟩
        rw [← hrest] at hread h₁
        have hbytes : (rest.take (copy_size rest.length)).length = copy_size rest.length := by
          rw [List.length_take]
          omega
        rw [hbytes] at h₁
        have hbuffer : (Sector.ofBytes fun j => (rest.take (copy_size rest.length)).getD j 0) =
            data_sector rest 0 := by
          refine Sector.ofBytes_congr fun j hj => ?_
          rw [Nat.mul_zero, Nat.zero_add]
          rw [BLOCK_SECTOR_SIZE] at hj
          by_cases hin : j < copy_size rest.length
          · rw [List.getD_eq_getElem?_getD, List.getElem?_take_of_lt hin,
              ← List.getD_eq_getElem?_getD]
          · rw [List.getD_eq_default _ _ (by omega), List.getD_eq_default _ _ (by omega)]
        rcases (SameBelow.refl dst sector).write sector (le_refl sector) hsector htype
          (data_sector rest 0) with ⟨hwrite, hsame₁⟩
        -- the rest of the file
        have hf₁ := m.lookup_setHandle src i (pos + copy_size rest.length)
        have hlen₁ : (m.data i).length - (pos + copy_size rest.length) =
            rest.length - copy_size rest.length := by omega
        rcases ih (dst.store sector (data_sector rest 0)) (sector + 1) h₁ hf₁
            (show pos + copy_size rest.length ≤ (m.data i).length by omega)
            (show (m.data i).length - (pos + copy_size rest.length) ≤ rounds by omega) htype
            (show sector + 1 + data_sectors ((m.data i).length - (pos + copy_size rest.length)) ≤
              dst.size by rw [hlen₁]; omega) with ⟨t, dst', happend, ht, hholds, hsame⟩
        have hdata₁ : (m.setHandle src i (pos + copy_size rest.length)).data i = m.data i := rfl
        rw [hdata₁, hlen₁] at happend
        rw [hdata₁] at hholds ht
        rw [FileMap.setHandle_setHandle] at ht
        refine ⟨t, dst', ?_, ht, ?_, hsame₁.trans hsame (by omega)⟩
        · have hfull : ¬ (rest.take (copy_size rest.length)).length ≠ copy_size rest.length :=
            fun hne => hne hbytes
          have hspace : ¬ sector ≥ dst.size := by omega
          rw [append_data, if_pos hpos]
          simp only [if_neg hspace, hread, call_some, ok_bind, if_neg hfull, hbuffer, hwrite,
            next_sector hsector, happend]
          rw [Nat.add_assoc, Nat.add_comm 1]
        · refine (holdsData_step (by rw [← hrest]; exact hpos)).2 ⟨?_, ?_⟩
          · rw [hsame.sectors sector (Nat.lt_succ_self sector), Block.store_sectors_self, hrest]
          · rw [← hrest, hrest, List.drop_drop]
            rwa [hrest] at hholds

/-! ## One file -/

variable {floats : FloatConversions} {memory : BitVec 32 → UInt8}

/-- The header that is made for a file of an archive. -/
theorem ArchiveFile.header (x : ArchiveFile) :
    ∃ h, ustar_make_header floats memory x.file_name .USTAR_REGULAR
        (BitVec.ofInt 32 (x.data.length : Int)) = some (.ok h) ∧
      ustar_parse_header (Sector.ofBytes h).byte = .ok x.entry := by
  have hdata := x.length_data
  rw [INT_MAX] at hdata
  have hsize : (BitVec.ofInt 32 (x.data.length : Int)).toNat = x.data.length := by
    rw [BitVec.toNat_ofInt]
    omega
  have hlength : (stripped x.file_name).chars.length ≤ 99 := by
    rw [x.stripped_name]
    exact x.length_name
  rcases ustar_make_header_eq floats memory (BitVec.ofInt 32 (x.data.length : Int)) (Or.inl rfl)
    hlength with ⟨h, hmake, hdescribes⟩
  refine ⟨h, hmake, ?_⟩
  have hbyte : ∀ i < USTAR_HEADER_SIZE, (Sector.ofBytes h).byte i = h i := fun i hi =>
    Sector.ofBytes_byte hi
  have hlarge : ¬ (UstarType.USTAR_REGULAR = .USTAR_REGULAR ∧ x.data.length > INT_MAX) := by
    rw [INT_MAX]
    omega
  rw [ustar_parse_header_congr hbyte, hdescribes.parse (Or.inl rfl), hsize, if_neg hlarge,
    if_pos rfl, stripped_stripped, x.stripped_name]
  rfl

theorem append_file_spec (floats : FloatConversions) (memory : BitVec 32 → UInt8) (x : ArchiveFile)
    {src : Nat} (h : Refines s (m.setHandle src i 0)) (hnew : m.handles.lookup src = none)
    (hdata : m.data i = x.data) (htype : dst.type ≠ .foreign)
    (hroom : sector + x.sectors + 2 ≤ dst.size) :
    ∃ t dst', append_file floats memory x.file_name s src dst sector (x.data.length : Int) =
        .ok (t, dst', sector + x.sectors) ∧
      Refines t m ∧ HoldsFile dst' sector x ∧ EndsAt dst' (sector + x.sectors) ∧
      SameBelow dst sector dst' := by
  rw [ArchiveFile.sectors] at hroom ⊢
  rcases @ArchiveFile.header floats memory x with ⟨hd, hmake, hparse⟩
  rcases (SameBelow.refl dst sector).write sector (le_refl sector) (by omega) htype
    (Sector.ofBytes hd) with ⟨hwrite₁, hsame₁⟩
  obtain ⟨dst₁, hdst₁⟩ : ∃ d, d = dst.store sector (Sector.ofBytes hd) := ⟨_, rfl⟩
  rw [← hdst₁] at hwrite₁ hsame₁
  have hdata₁ : (m.setHandle src i 0).data i = x.data := hdata
  have hlen : ((m.setHandle src i 0).data i).length - 0 = x.data.length := by
    rw [hdata₁, Nat.sub_zero]
  rcases append_data_spec x.file_name x.data.length dst₁ (sector + 1) h
      (m.lookup_setHandle src i 0) (Nat.zero_le _) (by rw [hlen])
      (by rw [hsame₁.type]; exact htype)
      (by rw [hlen, hsame₁.size]; omega) with ⟨t, dst₂, happend, ht, hholds, hsame₂⟩
  rw [hlen] at happend
  rw [hdata₁, List.drop_zero] at hholds
  rw [hdata₁, FileMap.setHandle_setHandle] at ht
  have hsame := hsame₁.trans hsame₂ (Nat.le_succ sector)
  -- the end-of-archive marker
  obtain ⟨k, hk⟩ : ∃ k, k = sector + (1 + data_sectors x.data.length) := ⟨_, rfl⟩
  rw [← Nat.add_assoc] at hk
  rcases hsame.write k (by omega) (by omega) htype archive_end_sector with
    ⟨hwrite₃, hsame₃⟩
  rcases hsame₃.write (k + 1) (by omega) (by omega) htype archive_end_sector with
    ⟨hwrite₄, hsame₄⟩
  have hbehind : ∀ a, a < k → ((dst₂.store k archive_end_sector).store (k + 1)
      archive_end_sector).sectors a = dst₂.sectors a := by
    intro a ha
    rw [Block.store_sectors_of_ne _ _ (by omega), Block.store_sectors_of_ne _ _ (by omega)]
  rcases ht.file_close hnew with ⟨u, hclose, hu⟩
  refine ⟨u, _, ?_, hu, ⟨?_, ?_⟩, ⟨?_, ?_⟩, hsame₄⟩
  · have hnext : size_add sector 1 = sector + 1 := next_sector (show sector < dst.size by omega)
    have hnext' : size_add k 1 = k + 1 := next_sector (show k < dst.size by omega)
    rw [append_file, hmake]
    simp only [call_some, ok_bind, hwrite₁, hnext, Int.toNat_natCast, happend]
    rw [← hk]
    simp only [hwrite₃, call_some, ok_bind, hnext', hwrite₄, hclose]
    rw [hk, Nat.add_assoc]
    rfl
  · rw [hbehind sector (by omega), hsame₂.sectors sector (Nat.lt_succ_self sector), hdst₁,
      Block.store_sectors_self]
    exact hparse
  · exact hholds.congr fun a _ ha' => hbehind a (by omega)
  · rw [← Nat.add_assoc, ← hk, Block.store_sectors_of_ne _ _ (by omega), Block.store_sectors_self]
  · rw [← Nat.add_assoc, ← hk, Block.store_sectors_self]

/-- One call of `fsutil_append`: the file is put behind the archive, and the file system stands for
the files that it stood for. -/
theorem fsutil_append_spec (floats : FloatConversions) (memory : BitVec 32 → UInt8)
    (x : ArchiveFile) (stack : Nat → DirEntry) (h : Refines u.fs m)
    (hfile : m.HasFile x.file_name x.data) (hscratch : u.scratch = some dst)
    (htype : dst.type ≠ .foreign) (hroom : u.append_sector + x.sectors + 2 ≤ dst.size) :
    ∃ t dst', fsutil_append floats memory stack x.file_name u =
        .ok ⟨t, some dst', u.extract_sector, u.append_sector + x.sectors⟩ ∧ Refines t m ∧
      HoldsFile dst' u.append_sector x ∧ EndsAt dst' (u.append_sector + x.sectors) ∧
      SameBelow dst u.append_sector dst' := by
  rcases h.malloc with ⟨s₁, hmalloc, h₁, _⟩
  rcases hfile with ⟨i, hi, hdata⟩
  rcases h₁.filesys_open hi (stack u.append_sector) with ⟨src, s₂, hopen, hnew, h₂, _⟩
  have hf := m.lookup_setHandle src i 0
  have hlength := (h₂.file_length hf).1
  have hdata₂ : (m.setHandle src i 0).data i = x.data := hdata
  rw [hdata₂] at hlength
  rcases append_file_spec floats memory x h₂ hnew hdata htype hroom with
    ⟨t, dst', happend, ht, hholds, hends, hsame⟩
  refine ⟨t, dst', ?_, ht, hholds, hends, hsame⟩
  have htrue : ¬ (true = false) := fun heq => by cases heq
  simp only [fsutil_append, hmalloc, if_neg htrue, hopen, call_some, ok_bind, hlength, hscratch,
    happend]
  rfl

/-! ## A list of files -/

/-- `fsutil_append` on one file after the other. -/
def fsutil_append_all (floats : FloatConversions) (memory : BitVec 32 → UInt8)
    (stack : Nat → DirEntry) (file_names : List CString) (u : Fsutil) : Except FsutilPanic Fsutil :=
  file_names.foldlM (fun u file_name => fsutil_append floats memory stack file_name u) u

theorem fsutil_append_all_spec (stack : Nat → DirEntry) {xs : List ArchiveFile} (h : Refines u.fs m)
    (hfiles : ∀ x ∈ xs, m.HasFile x.file_name x.data) (hscratch : u.scratch = some dst)
    (htype : dst.type ≠ .foreign) (hroom : u.append_sector + archive_sectors xs + 2 ≤ dst.size) :
    ∃ t dst', fsutil_append_all floats memory stack (xs.map ArchiveFile.file_name) u =
        .ok ⟨t, some dst', u.extract_sector, u.append_sector + archive_sectors xs⟩ ∧ Refines t m ∧
      Archived dst' u.append_sector xs ∧
      (xs ≠ [] ∨ EndsAt dst u.append_sector →
        EndsAt dst' (u.append_sector + archive_sectors xs)) ∧
      SameBelow dst u.append_sector dst' := by
  induction xs generalizing u dst with
  | nil =>
      refine ⟨u.fs, dst, ?_, h, trivial, fun hends => ?_, SameBelow.refl _ _⟩
      · rw [← hscratch]
        rfl
      · exact hends.resolve_left fun hne => hne rfl
  | cons x xs ih =>
      rw [archive_sectors_cons] at hroom ⊢
      rcases fsutil_append_spec floats memory x stack h
        (hfiles x List.mem_cons_self) hscratch htype (by omega) with
        ⟨t₁, dst₁, happend, h₁, hholds, hends, hsame₁⟩
      rcases @ih ⟨t₁, some dst₁, u.extract_sector, u.append_sector + x.sectors⟩ dst₁ h₁
        (fun y hy => hfiles y (List.mem_cons_of_mem x hy)) rfl (by rw [hsame₁.type]; exact htype)
        (by rw [hsame₁.size]; dsimp only; omega) with ⟨t, dst', hall, ht, harchived, hends', hsame⟩
      dsimp only at hall harchived hends' hsame
      refine ⟨t, dst', ?_, ht, ⟨?_, harchived⟩, fun _ => ?_, hsame₁.trans hsame (by omega)⟩
      · rw [fsutil_append_all, List.map_cons, List.foldlM_cons, happend, ok_bind, ← Nat.add_assoc]
        exact hall
      · -- the later files lie behind this one
        exact hholds.congr fun a _ ha' => hsame.sectors a ha'
      · rw [← Nat.add_assoc]
        exact hends' (Or.inr hends)

end Berk162
