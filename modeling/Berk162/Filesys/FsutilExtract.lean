import Berk162.Filesys.FsRoom
import Berk162.Filesys.FsutilAppend

/-!
# FsutilExtract — `fsutil_extract` puts the files of an archive into the file system

What it does with the data of a file, with one file and with the whole archive, when there is room
for the files.  With what `fsutil_append` leaves on the device this is the round trip of an archive.
-/

namespace Berk162

variable {s t : FileSys} {m : FileMap} {src : Block} {i k sector : Nat} {x : ArchiveFile}
  {xs : List ArchiveFile} {stack : Nat → DirEntry}

/-! ## The data of a file -/

theorem overwrite_append (done rest : Bytes) (n : Nat) (hn : n ≤ rest.length) :
    overwrite (done ++ List.replicate rest.length 0) done.length (rest.take n) =
      done ++ rest.take n ++ List.replicate (rest.drop n).length 0 := by
  have hlen : (rest.take n).length = n := by
    rw [List.length_take]
    omega
  have hdrop : (done ++ List.replicate rest.length (0 : UInt8)).drop (done.length + n) =
      List.replicate (rest.drop n).length 0 := by
    rw [List.drop_append, List.drop_of_length_le (Nat.le_add_right _ _), List.nil_append,
      List.drop_replicate, List.length_drop, Nat.add_sub_cancel_left]
  rw [overwrite, hlen, List.take_left, hdrop]

/-- The copy loop has written `done` and copies the rest of the file. -/
theorem extract_data_spec (file_name : CString) {name : CString} {f : Nat} (rounds : Nat) :
    ∀ (done : Bytes) {s : FileSys} {sector : Nat} {rest : Bytes},
      Refines s ((m.put name i (done ++ List.replicate rest.length 0)).setHandle f i done.length) →
      HoldsData src sector rest → sector + data_sectors rest.length ≤ src.size →
      rest.length ≤ rounds →
      ∃ t, extract_data src file_name f rounds s sector rest.length =
          .ok (t, sector + data_sectors rest.length) ∧
        Refines t ((m.put name i (done ++ rest)).setHandle f i (done ++ rest).length) ∧
        t.free_map = s.free_map := by
  induction rounds with
  | zero =>
      intro done s sector rest h _ _ hrounds
      obtain rfl := List.length_eq_zero_iff.1 (Nat.le_zero.1 hrounds)
      refine ⟨s, rfl, ?_, rfl⟩
      simpa using h
  | succ rounds ih =>
      intro done s sector rest h hholds hroom hrounds
      rcases Nat.eq_zero_or_pos rest.length with hzero | hpos
      · obtain rfl := List.length_eq_zero_iff.1 hzero
        refine ⟨s, rfl, ?_, rfl⟩
        simpa using h
      · have hcopy := copy_size_eq rest.length
        rw [data_sectors_step hpos] at hroom ⊢
        rcases (holdsData_step hpos).1 hholds with ⟨hfirst, hrest⟩
        have hsector : sector < src.size := by omega
        have hlen : (rest.take (copy_size rest.length)).length = copy_size rest.length := by
          rw [List.length_take]
          omega
        have hleft : (rest.drop (copy_size rest.length)).length =
            rest.length - copy_size rest.length := List.length_drop
        -- one sector
        have hf := (m.put name i (done ++ List.replicate rest.length 0)).lookup_setHandle f i
          done.length
        have hdata : ((m.put name i (done ++ List.replicate rest.length 0)).setHandle f i
            done.length).data i = done ++ List.replicate rest.length 0 := Function.update_self _ _ _
        rcases h.file_write hf (rest.take (copy_size rest.length))
          (by rw [hdata, hlen, List.length_append, List.length_replicate]; omega) with
          ⟨s₁, hwrite, h₁, hmap₁⟩
        rw [hdata, overwrite_append _ _ _ (by omega), hlen] at h₁
        rw [hlen] at hwrite
        have hback : ({ ((m.put name i (done ++ List.replicate rest.length 0)).setHandle f i
              done.length).setHandle f i (done.length + copy_size rest.length) with
            data := Function.update ((m.put name i (done ++
              List.replicate rest.length 0)).setHandle f i done.length).data i
                (done ++ rest.take (copy_size rest.length) ++
                  List.replicate (rest.drop (copy_size rest.length)).length 0) } : FileMap) =
            (m.put name i (done ++ rest.take (copy_size rest.length) ++
              List.replicate (rest.drop (copy_size rest.length)).length 0)).setHandle f i
                (done ++ rest.take (copy_size rest.length)).length := by
          rw [FileMap.setHandle_setHandle, List.length_append, hlen]
          simp only [FileMap.setHandle, FileMap.put, Function.update_idem]
        rw [hback] at h₁
        rcases ih _ h₁ hrest (by rw [hleft]; omega) (by rw [hleft]; omega) with
          ⟨t, hextract, ht, hmap⟩
        rw [List.append_assoc, List.take_append_drop] at ht
        rw [hleft] at hextract
        refine ⟨t, ?_, ht, hmap.trans hmap₁⟩
        have hfull : ¬ copy_size rest.length ≠ copy_size rest.length := fun hne => hne rfl
        rw [extract_data, if_pos hpos]
        simp only [block_read_eq hsector, call_some, ok_bind, hfirst, take_data_sector, hwrite,
          if_neg hfull, next_sector hsector, hextract]
        rw [Nat.add_assoc, Nat.add_comm 1]

/-! ## One file -/

/-- The number of sectors that the files take in the file system: an inode and the data of each. -/
def file_sectors (xs : List ArchiveFile) : Nat :=
  (xs.map fun x => 1 + bytes_to_sectors x.data.length).sum

@[simp] theorem file_sectors_cons (x : ArchiveFile) (xs : List ArchiveFile) :
    file_sectors (x :: xs) = 1 + bytes_to_sectors x.data.length + file_sectors xs := by
  simp [file_sectors]

/-- There is room for the files from sector `k` of the file system on. -/
structure RoomFor (s : FileSys) (m : FileMap) (k : Nat) (xs : List ArchiveFile) : Prop where
  free : s.FreeFrom k
  space : k + file_sectors xs ≤ s.free_map.bit_cnt
  entries : m.names.keys.card + xs.length ≤ ROOT_ENTRIES
  length_name : ∀ x ∈ xs, x.file_name.chars.length ≤ NAME_MAX
  distinct : (xs.map ArchiveFile.file_name).Nodup
  new : ∀ x ∈ xs, m.names.lookup x.file_name = none

theorem FileMap.card_put_le (m : FileMap) (name : CString) (i : Nat) (data : Bytes) :
    (m.put name i data).names.keys.card ≤ m.names.keys.card + 1 := by
  have hkeys : (m.put name i data).names.keys = insert name m.names.keys := by
    ext n
    rw [put, Finmap.mem_keys, Finmap.mem_insert, Finset.mem_insert, Finmap.mem_keys]
  rw [hkeys]
  exact Finset.card_insert_le _ _

/-- There is room for the files that come after the first. -/
theorem RoomFor.tail (h : RoomFor s m k (x :: xs)) {data : Bytes}
    (hfree : t.FreeFrom (k + 1 + bytes_to_sectors x.data.length))
    (hcnt : t.free_map.bit_cnt = s.free_map.bit_cnt) :
    RoomFor t (m.put x.file_name i data) (k + 1 + bytes_to_sectors x.data.length) xs := by
  have hspace := h.space
  have hentries := h.entries
  have hcard := m.card_put_le x.file_name i data
  have hdistinct := List.nodup_cons.1 h.distinct
  rw [file_sectors_cons] at hspace
  rw [List.length_cons] at hentries
  refine ⟨hfree, by rw [hcnt]; omega, by omega,
    fun y hy => h.length_name y (List.mem_cons_of_mem x hy), hdistinct.2, fun y hy => ?_⟩
  have hne : y.file_name ≠ x.file_name := fun heq =>
    hdistinct.1 (heq ▸ List.mem_map_of_mem hy)
  rw [FileMap.put, Finmap.lookup_insert_of_ne _ hne]
  exact h.new y (List.mem_cons_of_mem x hy)

theorem extract_file_spec (h : Refines s m) (hroom : RoomFor s m k (x :: xs))
    (hholds : HoldsData src sector x.data)
    (hsrc : sector + data_sectors x.data.length ≤ src.size) :
    ∃ i t, extract_file stack src s sector x.file_name x.data.length =
        .ok (t, sector + data_sectors x.data.length) ∧ m.Unused i ∧
      Refines t (m.put x.file_name i x.data) ∧
      RoomFor t (m.put x.file_name i x.data) (k + 1 + bytes_to_sectors x.data.length) xs := by
  have hspace := hroom.space
  have hentries := hroom.entries
  rw [file_sectors_cons] at hspace
  rw [List.length_cons] at hentries
  have hsize : x.data.length < OFF_T := by
    have hdata := x.length_data
    rw [INT_MAX] at hdata
    rw [OFF_T]
    omega
  have hne : x.file_name.chars ≠ [] := by
    rw [← x.stripped_name]
    exact (stripped_safe x.file_name).nonempty
  rcases h.create_free x.file_name x.data.length (stack sector) hroom.free (by omega) hsize hne
    (hroom.length_name x List.mem_cons_self) (hroom.new x List.mem_cons_self) (by omega) with
    ⟨i, s₁, hcreate, hunused, h₁, hfree₁, hcnt₁⟩
  have hi : ∀ data, (m.put x.file_name i data).names.lookup x.file_name = some i :=
    fun _ => Finmap.lookup_insert _
  rcases h₁.filesys_open (hi _) (stack sector) with ⟨f, s₂, hopen, hnone, h₂, hmap₂⟩
  -- the data
  rcases extract_data_spec x.file_name x.data.length [] h₂ hholds hsrc
    (le_refl _) with ⟨s₃, hextract, h₃, hmap₃⟩
  rw [List.nil_append] at h₃
  rcases h₃.file_close hnone with ⟨t, hclose, ht⟩
  have hmap := h₃.file_close_free_map (hi x.data) hclose
  have hsame : t.free_map = s₁.free_map := hmap.trans (hmap₃.trans hmap₂)
  refine ⟨i, t, ?_, hunused, ht, hroom.tail (hfree₁.congr hsame) (by rw [hsame, hcnt₁])⟩
  have htrue : ¬ (true = false) := fun heq => by cases heq
  simp only [extract_file, hcreate, call_some, ok_bind, if_neg htrue, hopen, hextract, hclose]
  rfl

/-! ## The archive -/

theorem length_le_archive_sectors (xs : List ArchiveFile) : xs.length ≤ archive_sectors xs := by
  induction xs with
  | nil =>
      exact le_refl 0
  | cons x xs ih =>
      rw [List.length_cons, archive_sectors_cons, ArchiveFile.sectors]
      omega

theorem extract_header_eq {e : UstarEntry} (h : sector < src.size)
    (hparse : ustar_parse_header (src.sectors sector).byte = .ok e) :
    extract_header src sector = .ok e := by
  rw [extract_header, block_read_eq h, call_some, ok_bind, hparse]

theorem extract_loop_spec {rounds : Nat} (h : Refines s m) (hroom : RoomFor s m k xs)
    (harchived : Archived src sector xs) (hend : EndsAt src (sector + archive_sectors xs))
    (hsrc : sector + archive_sectors xs < src.size) (hrounds : xs.length < rounds) :
    ∃ t m', extract_loop stack src rounds s sector =
        .ok (t, sector + archive_sectors xs + 1) ∧ Refines t m' ∧
      ∀ n d, m'.HasFile n d ↔ m.HasFile n d ∨ ∃ x ∈ xs, x.file_name = n ∧ x.data = d := by
  induction xs generalizing s m k sector rounds with
  | nil =>
      rcases Nat.exists_eq_succ_of_ne_zero (Nat.ne_of_gt hrounds) with ⟨rounds, rfl⟩
      refine ⟨s, m, ?_, h, fun n d => ?_⟩
      · rw [archive_sectors_nil, Nat.add_zero] at hsrc hend ⊢
        have hparse := parse_archive_end
        rw [← hend.first] at hparse
        rw [extract_loop, extract_header_eq hsrc hparse, ok_bind, if_pos rfl, next_sector hsrc]
      · simp
  | cons x xs ih =>
      rw [List.length_cons] at hrounds
      rw [archive_sectors_cons] at hsrc hend ⊢
      rcases Nat.exists_eq_succ_of_ne_zero (show rounds ≠ 0 by omega) with ⟨rounds, rfl⟩
      have hsectors : x.sectors = 1 + data_sectors x.data.length := rfl
      have hsector : sector < src.size := by omega
      rcases @extract_file_spec s m src k (sector + 1) x xs stack h hroom harchived.1.data
        (by omega) with ⟨i, s₁, hextract, hunused, h₁, hroom₁⟩
      have hnext : sector + 1 + data_sectors x.data.length = sector + x.sectors := by omega
      rw [hnext] at hextract
      rcases ih h₁ hroom₁ harchived.2 (by rw [Nat.add_assoc]; exact hend) (by omega)
        (show xs.length < rounds by omega) with ⟨t, m', hloop, ht, hfiles⟩
      refine ⟨t, m', ?_, ht, fun n d => ?_⟩
      · have heof : ¬ (x.entry.type = .USTAR_EOF) := fun heq => by cases heq
        have hdir : ¬ (x.entry.type = .USTAR_DIRECTORY) := fun heq => by cases heq
        have hname : x.entry.file_name = some x.file_name := rfl
        have hsize : x.entry.size = x.data.length := rfl
        rw [extract_loop, extract_header_eq hsector harchived.1.header, ok_bind, if_neg heof,
          if_neg hdir, hname, hsize, next_sector hsector]
        simp only [hextract, ok_bind, hloop]
        rw [Nat.add_assoc sector]
      · have hnone : ∀ d, ¬ m.HasFile x.file_name d := by
          rintro d ⟨j, hj, _⟩
          rw [hroom.new x List.mem_cons_self] at hj
          cases hj
        rw [hfiles, FileMap.hasFile_put hunused]
        constructor
        · rintro ((⟨rfl, rfl⟩ | ⟨_, hn⟩) | ⟨y, hy, hyn⟩)
          · exact Or.inr ⟨x, List.mem_cons_self, rfl, rfl⟩
          · exact Or.inl hn
          · exact Or.inr ⟨y, List.mem_cons_of_mem x hy, hyn⟩
        · rintro (hn | ⟨y, hy, rfl, rfl⟩)
          · refine Or.inl (Or.inr ⟨?_, hn⟩)
            rintro rfl
            exact hnone d hn
          · rcases List.mem_cons.1 hy with rfl | hy
            · exact Or.inl (Or.inl ⟨rfl, rfl⟩)
            · exact Or.inr ⟨y, hy, rfl, rfl⟩

/-- The files of the archive are put into the file system, and the archive is erased. -/
theorem fsutil_extract_spec {u : Fsutil} (stack : Nat → DirEntry) (h : Refines u.fs m)
    (hroom : RoomFor u.fs m k xs) (hscratch : u.scratch = some src) (htype : src.type ≠ .foreign)
    (harchived : Archived src u.extract_sector xs)
    (hend : EndsAt src (u.extract_sector + archive_sectors xs))
    (hsrc : u.extract_sector + archive_sectors xs + 2 ≤ src.size) :
    ∃ t m' src', fsutil_extract stack u = .ok ⟨t, some src',
        u.extract_sector + archive_sectors xs + 1, u.append_sector⟩ ∧ Refines t m' ∧
      EndsAt src' 0 ∧ src'.size = src.size ∧ src'.type = src.type ∧
      ∀ n d, m'.HasFile n d ↔ m.HasFile n d ∨ ∃ x ∈ xs, x.file_name = n ∧ x.data = d := by
  rcases h.malloc with ⟨s₁, hheader, h₁, hmap₁⟩
  rcases h₁.malloc with ⟨s₂, hdata, h₂, hmap₂⟩
  have hsame : s₂.free_map = u.fs.free_map := hmap₂.trans hmap₁
  have hroom₂ : RoomFor s₂ m k xs :=
    ⟨hroom.free.congr hsame, by rw [hsame]; exact hroom.space, hroom.entries, hroom.length_name,
      hroom.distinct, hroom.new⟩
  have hle := length_le_archive_sectors xs
  rcases @extract_loop_spec s₂ m src k u.extract_sector xs stack (src.size + 1) h₂ hroom₂ harchived
    hend (by omega) (by omega) with ⟨t, m', hloop, ht, hfiles⟩
  have hwrite : block_write src 0 archive_end_sector = some _ :=
    block_write_eq _ (by omega) htype
  have hwrite' : block_write (src.store 0 archive_end_sector) 1 archive_end_sector = some _ :=
    block_write_eq _ (by rw [Block.store_size]; omega) htype
  refine ⟨t, m', (src.store 0 archive_end_sector).store 1 archive_end_sector, ?_, ht,
    ⟨?_, Block.store_sectors_self _ _ _⟩, rfl, rfl, hfiles⟩
  · have htrue : ¬ (true = false ∨ true = false) := by decide
    simp only [fsutil_extract, hheader, hdata, if_neg htrue, hscratch, hloop, ok_bind, hwrite,
      call_some, hwrite']
    rfl
  · rw [Block.store_sectors_of_ne _ _ (by decide), Block.store_sectors_self]

/-! ## The round trip -/

theorem ampleRuns_refines (h : ampleRuns.Reachable s) : ∃ m, Refines s m := by
  refine System.Reachable.invariant (I := fun s => ∃ m, Refines s m) (fun s hinit => ?_)
    (fun s l t hs hstep => ?_) h
  · rcases ampleRuns_simulates.init s hinit with ⟨m, _, href⟩
    exact ⟨m, href⟩
  · rcases hs with ⟨m, href⟩
    rcases href.call hstep.1 hstep.2 with ⟨m', _, href'⟩
    exact ⟨m', href'⟩

/-- There is an entry for each name. -/
theorem Refines.card_le (h : Refines s m) : m.names.keys.card ≤ ROOT_ENTRIES := by
  have hentry : ∀ n : CString, ∃ l, n ∈ m.names.keys →
      l < ROOT_ENTRIES ∧ FileSys.names n (dir_entry s.fs_device l) = true := by
    intro n
    by_cases hn : n ∈ m.names.keys
    · rcases Finmap.mem_iff.1 (Finmap.mem_keys.1 hn) with ⟨i, hi⟩
      rcases (h.represents.names n i).1 hi with ⟨l, hl, hname, _⟩
      exact ⟨l, fun _ => ⟨hl, hname⟩⟩
    · exact ⟨0, fun hn' => absurd hn' hn⟩
  choose l hl using hentry
  have hle := Finset.card_le_card_of_injOn (s := m.names.keys) (t := Finset.range ROOT_ENTRIES) l
    (fun n hn => Finset.mem_coe.2 (Finset.mem_range.2 (hl n (Finset.mem_coe.1 hn)).1))
    fun n hn n' hn' heq => ?_
  · rwa [Finset.card_range] at hle
  · have hname := (hl n (Finset.mem_coe.1 hn)).2
    rw [heq] at hname
    exact CString.eq_of_names hname (hl n' (Finset.mem_coe.1 hn')).2

/-- Where there are no files to extract there is room for them. -/
theorem Refines.room_nil (h : Refines s m) : RoomFor s m s.free_map.bit_cnt [] :=
  ⟨fun _ hj hlt => absurd hlt (Nat.not_lt.2 hj), le_refl _, h.card_le,
    fun _ hx => absurd hx List.not_mem_nil, List.nodup_nil, fun _ hx => absurd hx List.not_mem_nil⟩

/-- Files that are appended to a new archive and then, after a reboot, extracted into a new file
system.  The archive is erased. -/
theorem append_then_extract (floats : FloatConversions) (memory : BitVec 32 → UInt8)
    (stack stack' : Nat → DirEntry) (xs : List ArchiveFile) (dst : Block) {dev : Block}
    {mem : Mallocs} {storage : Nat → BitVec 32}
    (hs : ampleRuns.Reachable s) (hfiles : ∀ x ∈ xs, s.HasFile x.file_name x.data)
    (hdistinct : (xs.map ArchiveFile.file_name).Nodup)
    (hlength : ∀ x ∈ xs, x.file_name.chars.length ≤ NAME_MAX) (htype : dst.type ≠ .foreign)
    (hdst : archive_sectors xs + 2 ≤ dst.size) (hne : xs ≠ [] ∨ EndsAt dst 0) (hmem : mem.Ample)
    (hinit : FileSys.filesys_init dev mem storage true = some t)
    (hentries : xs.length ≤ ROOT_ENTRIES)
    (hspace : 3 + bytes_to_sectors (byte_cnt t.free_map.bit_cnt) + file_sectors xs ≤
      t.free_map.bit_cnt) :
    ∃ u v src, fsutil_append_all floats memory stack (xs.map ArchiveFile.file_name)
        ⟨s, some dst, 0, 0⟩ = .ok u ∧
      (∀ n d, u.fs.HasFile n d ↔ s.HasFile n d) ∧
      fsutil_extract stack' ⟨t, u.scratch, 0, 0⟩ = .ok v ∧
      (∀ n d, v.fs.HasFile n d ↔ ∃ x ∈ xs, x.file_name = n ∧ x.data = d) ∧
      (∃ m, Refines v.fs m) ∧ v.scratch = some src ∧ EndsAt src 0 ∧ src.size = dst.size ∧
      src.type = dst.type := by
  rcases ampleRuns_refines hs with ⟨m, href⟩
  rcases @fsutil_append_all_spec m ⟨s, some dst, 0, 0⟩ dst floats memory stack xs href
    (fun x hx => href.hasFile_iff.2 (hfiles x hx)) rfl htype (by simpa using hdst) with
    ⟨s', dst', happend, href', harchived, hends, hsame⟩
  -- the new file system
  rcases filesys_init_format dev mem storage with ⟨hnone, _⟩ | ⟨t', heq, hfresh, _, hample⟩
  · rw [hnone] at hinit
    cases hinit
  obtain rfl : t' = t := Option.some.inj (heq.symm.trans hinit)
  have hnew := hfresh.refines (hample hmem)
  have hroom : RoomFor t' ⟨∅, fun _ => [], ∅⟩ (3 + bytes_to_sectors (byte_cnt t'.free_map.bit_cnt))
      xs :=
    ⟨hfresh.free_above, hspace, by simpa using hentries, hlength, hdistinct,
      fun _ _ => Finmap.lookup_empty _⟩
  have hsize : 0 + archive_sectors xs + 2 ≤ dst'.size := by
    rw [hsame.size, Nat.zero_add]
    exact hdst
  have htype' : dst'.type ≠ .foreign := by
    rw [hsame.type]
    exact htype
  rcases @fsutil_extract_spec _ dst' _ xs ⟨t', some dst', 0, 0⟩ stack' hnew hroom rfl htype'
    harchived (hends hne) hsize with ⟨v, mv, src, hextract, hv, hend, hcnt, htype'', hnames⟩
  refine ⟨_, _, src, happend, fun n d => ?_, hextract, fun n d => ?_, ⟨mv, hv⟩, rfl, hend,
    hcnt.trans hsame.size, htype''.trans hsame.type⟩
  · rw [← href'.hasFile_iff, ← href.hasFile_iff]
  · rw [← hv.hasFile_iff, hnames]
    refine or_iff_right ?_
    rintro ⟨i, hi, _⟩
    cases hi.symm.trans (Finmap.lookup_empty n)

/-- Files that are appended to a new archive and then, after a reboot, extracted into a new file
system have the names and the data that they had, and there are no others.  The file system that
they come from stays as it is, and extracting once more, after another reboot, does nothing. -/
theorem fsutil_round_trip (floats : FloatConversions) (memory : BitVec 32 → UInt8)
    (stack stack' : Nat → DirEntry) (xs : List ArchiveFile) (dst : Block) {dev : Block}
    {mem : Mallocs} {storage : Nat → BitVec 32}
    (hs : ampleRuns.Reachable s) (hfiles : ∀ x ∈ xs, s.HasFile x.file_name x.data)
    (hdistinct : (xs.map ArchiveFile.file_name).Nodup)
    (hlength : ∀ x ∈ xs, x.file_name.chars.length ≤ NAME_MAX) (htype : dst.type ≠ .foreign)
    (hdst : archive_sectors xs + 2 ≤ dst.size) (hne : xs ≠ [] ∨ EndsAt dst 0) (hmem : mem.Ample)
    (hinit : FileSys.filesys_init dev mem storage true = some t)
    (hentries : xs.length ≤ ROOT_ENTRIES)
    (hspace : 3 + bytes_to_sectors (byte_cnt t.free_map.bit_cnt) + file_sectors xs ≤
      t.free_map.bit_cnt) :
    ∃ u v w, fsutil_append_all floats memory stack (xs.map ArchiveFile.file_name)
        ⟨s, some dst, 0, 0⟩ = .ok u ∧
      (∀ n d, u.fs.HasFile n d ↔ s.HasFile n d) ∧
      fsutil_extract stack' ⟨t, u.scratch, 0, 0⟩ = .ok v ∧
      (∀ n d, v.fs.HasFile n d ↔ ∃ x ∈ xs, x.file_name = n ∧ x.data = d) ∧
      fsutil_extract stack' ⟨v.fs, v.scratch, 0, 0⟩ = .ok w ∧
      ∀ n d, w.fs.HasFile n d ↔ v.fs.HasFile n d := by
  rcases append_then_extract floats memory stack stack' xs dst hs hfiles hdistinct hlength htype
    hdst hne hmem hinit hentries hspace with
    ⟨u, v, src, happend, hkept, hextract, hfiles', ⟨m, hv⟩, hscratch, hend, hcnt, htype'⟩
  -- the archive that is left is empty
  have hsize : 0 + archive_sectors [] + 2 ≤ src.size := by
    rw [hcnt, archive_sectors_nil]
    omega
  rcases @fsutil_extract_spec m src _ [] ⟨v.fs, some src, 0, 0⟩ stack' hv hv.room_nil rfl
    (by rw [htype']; exact htype) trivial hend hsize with
    ⟨w, mw, _, hagain, hw, _, _, _, hnames⟩
  rw [← hscratch] at hagain
  refine ⟨_, _, _, happend, hkept, hextract, hfiles', hagain, fun n d => ?_⟩
  rw [← hw.hasFile_iff, ← hv.hasFile_iff, hnames]
  simp

/-- A file of 512 zeros. -/
def letter_file : ArchiveFile where
  file_name := letter_name
  data := List.replicate 512 0
  stripped_name := stripped_of_safe ⟨by decide, by decide, by decide⟩
  length_name := by decide
  length_data := by
    rw [List.length_replicate, INT_MAX]
    decide

/-- A scratch device of 64 sectors. -/
def scratch_disk : Block := { blank_disk with type := .scratch }

/-- A new disk that has got the file. -/
theorem letter_file_system : ∃ s, ampleRuns.Reachable s ∧
    s.HasFile letter_file.file_name letter_file.data := by
  rcases blank_disk_format with ⟨s, heq, hfresh, hcnt, hample⟩
  have hreach : ampleRuns.Reachable s := System.Reachable.init ⟨_, _, _, fun _ => rfl, heq⟩
  have hsectors : bytes_to_sectors 512 = 1 := bytes_to_sectors_eq (by decide)
  have hfree : s.FreeFrom 4 := fun j hj hlt => hfresh.free hcnt hj (by rwa [← hcnt])
  have href := hfresh.refines hample
  let e := DirEntry.ofBytes fun _ => 0
  rcases href.create_free letter_name 512 e hfree (by rw [hcnt, hsectors]; decide)
    (by decide) (by decide) (by decide) (Finmap.lookup_empty _) (by decide) with
    ⟨i, t, hcreate, hi, ht, _⟩
  have hallowed : (FsCall.create letter_name (512 : Nat) e).Allowed s := Int.ofNat_lt.2 (by decide)
  have hrun : (FsCall.create letter_name (512 : Nat) e).run s =
      some (FsResult.success true, t) := by
    rw [FsCall.run, hcreate, Option.map_some]
  refine ⟨t, System.Reachable.step (l := (FsCall.create letter_name (512 : Nat) e,
    FsResult.success true)) hreach ⟨hallowed, hrun⟩, ?_⟩
  exact ht.hasFile_iff.1 ((FileMap.hasFile_put hi _ _).2 (Or.inl ⟨rfl, rfl⟩))

theorem letter_file_fits : archive_sectors [letter_file] + 2 ≤ scratch_disk.size := by
  rw [archive_sectors_cons, ArchiveFile.sectors,
    show letter_file.data.length = 512 from List.length_replicate]
  decide

theorem letter_file_room (hcnt : t.free_map.bit_cnt = 64) :
    3 + bytes_to_sectors (byte_cnt t.free_map.bit_cnt) + file_sectors [letter_file] ≤
      t.free_map.bit_cnt := by
  have hmap : 3 + bytes_to_sectors (byte_cnt 64) = 4 := by decide
  have hdata : bytes_to_sectors letter_file.data.length = 1 := by
    rw [show letter_file.data.length = 512 from List.length_replicate]
    exact bytes_to_sectors_eq (by decide)
  rw [hcnt, hmap, file_sectors_cons, hdata]
  decide

theorem fsutil_round_trip_letter : ∃ s t u v, s.HasFile letter_name (List.replicate 512 0) ∧
    FileSys.filesys_init blank_disk unlimited (fun _ => 0) true = some t ∧
    fsutil_append_all no_doubles (fun _ => 0) (fun _ => DirEntry.ofBytes fun _ => 0) [letter_name]
      ⟨s, some scratch_disk, 0, 0⟩ = .ok u ∧
    fsutil_extract (fun _ => DirEntry.ofBytes fun _ => 0) ⟨t, u.scratch, 0, 0⟩ = .ok v ∧
    v.fs.HasFile letter_name (List.replicate 512 0) := by
  rcases letter_file_system with ⟨s, hs, hfile⟩
  rcases blank_disk_format with ⟨t, heq, _, hcnt, _⟩
  rcases fsutil_round_trip no_doubles (fun _ => 0) (fun _ => DirEntry.ofBytes fun _ => 0)
      (fun _ => DirEntry.ofBytes fun _ => 0) [letter_file] scratch_disk hs
      (fun x hx => List.mem_singleton.1 hx ▸ hfile) (List.nodup_singleton _)
      (fun x hx => List.mem_singleton.1 hx ▸ by decide) (by decide) letter_file_fits
      (Or.inl (List.cons_ne_nil _ _)) (fun _ => rfl) heq (by decide) (letter_file_room hcnt) with
    ⟨u, v, _, happend, _, hextract, hfiles, _⟩
  exact ⟨s, t, u, v, hfile, heq, happend, hextract,
    (hfiles _ _).2 ⟨letter_file, List.mem_singleton.2 rfl, rfl, rfl⟩⟩

end Berk162
