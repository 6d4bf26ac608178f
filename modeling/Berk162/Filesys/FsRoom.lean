import Berk162.Filesys.FsFileCalls
import Berk162.Filesys.FsLeaks

/-!
# FsRoom — when there is room for a file

`FreeFrom s k` says that all sectors from `k` on are free.  Since the free map is searched from its
beginning, a file that fits behind `k` is created, and what it does not need stays free: the sectors
from `k` on are the room that is left.
-/

namespace Berk162

variable {s s' t : FileSys} {m : FileMap} {name : CString} {e : DirEntry} {f i k size : Nat}
  {held : List Nat} {file : File} {inode : Inode}

/-- The sectors from `k` on are free. -/
def FileSys.FreeFrom (s : FileSys) (k : Nat) : Prop :=
  ∀ j, k ≤ j → j < s.free_map.bit_cnt → s.free_map.test j = false

/-! ## What a new file takes -/

namespace FsInv

/-- A file that does not get its name is not created. -/
theorem not_created {c : Prop} [Decidable c] {release : Option FileSys}
    (h : (if c then release.bind fun s => pure (false, s) else pure (false, s)) = some (true, t)) :
    False := by
  split at h
  · rcases Option.bind_eq_some_iff.1 h with ⟨_, _, hpair⟩
    cases hpair
  · cases h

/-- The data of a new file are allocated when its inode is in sector `i`. -/
theorem create_in_allocs (h : FsInv held s) {p : Nat} (hp : s.open_inodes.get p = some inode)
    (hroot : inode.sector = ROOT_DIR_SECTOR) (hi : Reserved s i) (hsize : size < OFF_T)
    (hin : s.create_in p i name size e = some (true, t)) :
    ∃ s₁ start s₂, s₁.free_map = s.free_map ∧
      AllocSpec s₁ (bytes_to_sectors size) (some start) s₂ ∧ t.free_map = s₂.free_map := by
  rcases h.map_inv.inode_create hi.sector_lt size with ⟨r, s₁, hcreate, hspec⟩
  have hinv₁ := h.change (h.of_inode_create hi hsize hspec).1
  have hopen₁ := (h.of_inode_create hi hsize hspec).1.open_inodes
  simp only [FileSys.create_in, hcreate, Option.bind_eq_bind, Option.bind_some] at hin
  cases hspec with
  | no_memory | no_sectors =>
      simp only [Bool.false_eq_true, if_false] at hin
      exact (not_created hin).elim
  | @created start s₂ _ halloc =>
      rcases hinv₁.dir_add (by rwa [hopen₁]) hroot name i e with ⟨r, s₃, hadd, hspec₃⟩
      simp only [if_true, hadd, Option.bind_some] at hin
      cases hspec₃ with
      | refused =>
          exact (not_created hin).elim
      | added =>
          have hcond : ¬ ((!true) = true ∧ i ≠ 0) := fun hand => by cases hand.1
          rw [if_neg hcond] at hin
          rcases Prod.mk.inj (Option.some.inj hin) with ⟨_, rfl⟩
          exact ⟨s.setMem s.mem.malloc.2, start, s₂, rfl, halloc, rfl⟩

/-- The sectors of a file that is created: one for its inode, then those of its data. -/
theorem filesys_create_allocs (h : FsInv held s) (hsize : size < OFF_T)
    (hcreate : s.filesys_create name size e = some (true, t)) :
    ∃ s₁ i s₂ s₃ start s₄, s₁.free_map = s.free_map ∧ AllocSpec s₁ 1 (some i) s₂ ∧
      s₃.free_map = s₂.free_map ∧ AllocSpec s₃ (bytes_to_sectors size) (some start) s₄ ∧
      t.free_map = s₄.free_map := by
  rcases h.dir_open_root with ⟨dir, s₁, hroot, hspec₁, hinv₁⟩
  cases dir with
  | none =>
      simp only [FileSys.filesys_create, hroot, Option.bind_eq_bind, Option.bind_some] at hcreate
      cases hcreate
  | some p =>
      replace hinv₁ : FsInv (p :: held) s₁ := hinv₁
      rcases hspec₁.opened p rfl with ⟨inode, hp, hsector⟩
      rcases hinv₁.free_map_allocate 1 with ⟨i, s₂, halloc, hspec₂, hu₂⟩
      have hinv₂ := hinv₁.change hu₂
      have hp₂ : s₂.open_inodes.get p = some inode := by rwa [hu₂.open_inodes]
      cases i with
      | none =>
          simp only [FileSys.filesys_create, hroot, halloc, Option.bind_eq_bind,
            Option.bind_some] at hcreate
          rcases Option.bind_eq_some_iff.1 hcreate with ⟨_, _, hpair⟩
          cases hpair
      | some i =>
          have hres := hinv₁.reserved hspec₂
          rcases hinv₂.create_in hp₂ hsector hres name hsize e with
            ⟨r, s₃, hin, _, hinv₃, hopen₃⟩
          have hp₃ : s₃.open_inodes.get p = some inode := by rwa [hopen₃]
          rcases hinv₃.close_root List.mem_cons_self hp₃ hsector with
            ⟨s₄, hclose, _, _, _, _, hmap₄, _⟩
          have hdone := FileSys.filesys_create_of hroot halloc hin hclose
          rw [hcreate] at hdone
          rcases Prod.mk.inj (Option.some.inj hdone) with ⟨rfl, rfl⟩
          rcases hinv₂.create_in_allocs hp₂ hsector hres hsize hin with
            ⟨s₅, start, s₆, hmap₅, hdata, hmap₃⟩
          exact ⟨s₁, i, s₂, s₅, start, s₆, hspec₁.free_map, hspec₂, hmap₅, hdata,
            hmap₄.trans hmap₃⟩

end FsInv

/-- A request that could be met from `k` on is met from `k` or from before. -/
theorem AllocSpec.le_of_run {cnt start : Nat} (h : AllocSpec s cnt (some start) t)
    (hrun : s.free_map.RunAt k cnt false) : start ≤ k := by
  cases h with
  | done hfirst =>
      exact Nat.le_of_not_lt fun hlt => hfirst.least k (Nat.zero_le k) hlt hrun

theorem AllocSpec.test {cnt start : Nat} (h : AllocSpec s cnt (some start) t) (j : Nat) :
    t.free_map.test j =
      if start ≤ j ∧ j < start + cnt then true else s.free_map.test j := by
  cases h with
  | done _ _ _ htest =>
      exact htest j

/-- What a request that fits behind `k` leaves free. -/
theorem AllocSpec.free_from {cnt start : Nat} (h : AllocSpec s cnt (some start) t)
    (hfree : s.FreeFrom k) (hroom : k + cnt ≤ s.free_map.bit_cnt) : t.FreeFrom (k + cnt) := by
  have hstart : start ≤ k := h.le_of_run fun j hj hj' => hfree j hj (by omega)
  intro j hj hlt
  rw [h.step.bit_cnt] at hlt
  rw [h.test, if_neg (by omega), hfree j (by omega) hlt]

theorem FileSys.FreeFrom.congr (h : s.FreeFrom k) (hmap : t.free_map = s.free_map) :
    t.FreeFrom k := by
  rw [FileSys.FreeFrom, hmap]
  exact h

theorem FsInv.filesys_create_free_from (h : FsInv held s) (hsize : size < OFF_T)
    (hfree : s.FreeFrom k) (hroom : k + 1 + bytes_to_sectors size ≤ s.free_map.bit_cnt)
    (hcreate : s.filesys_create name size e = some (true, t)) :
    t.FreeFrom (k + 1 + bytes_to_sectors size) ∧ t.free_map.bit_cnt = s.free_map.bit_cnt := by
  rcases h.filesys_create_allocs hsize hcreate with
    ⟨s₁, i, s₂, s₃, start, s₄, hmap₁, hinode, hmap₃, hdata, hmap₄⟩
  have hcnt₂ := hinode.step.bit_cnt
  have hcnt₄ := hdata.step.bit_cnt
  rw [hmap₁] at hcnt₂
  rw [hmap₃, hcnt₂] at hcnt₄
  have hfree₂ := hinode.free_from (hfree.congr hmap₁) (by rw [hmap₁]; omega)
  have hfree₄ := hdata.free_from (hfree₂.congr hmap₃) (by rw [hmap₃, hcnt₂]; exact hroom)
  exact ⟨hfree₄.congr hmap₄, by rw [hmap₄, hcnt₄]⟩

/-! ## When a file is created -/

/-- A file that fits behind `k` has room. -/
theorem Between.hasRoom_of_free_from (h : Between s) (hfree : s.FreeFrom k)
    (hroom : k + 1 + bytes_to_sectors size ≤ s.free_map.bit_cnt) : s.HasRoom size := by
  have hk : k < s.free_map.bit_cnt := by omega
  rcases h.first_free hk (hfree k (le_refl k) hk) with ⟨i, hle, hfirst⟩
  exact ⟨i, k + 1, hfirst, hroom, fun j hj hj' => ⟨by omega, hfree j (by omega) (by omega)⟩⟩

/-- A file that is created had room. -/
theorem FsInv.hasRoom_of_create (h : FsInv held s) (hsize : size < OFF_T)
    (hcreate : s.filesys_create name size e = some (true, t)) : s.HasRoom size := by
  rcases h.filesys_create_allocs hsize hcreate with
    ⟨s₁, i, s₂, s₃, start, s₄, hmap₁, hinode, hmap₃, hdata, _⟩
  have hcnt₂ := hinode.step.bit_cnt
  have htest₂ := hinode.test
  rw [hmap₁] at hcnt₂ htest₂
  cases hinode with
  | done hfirst =>
      rw [hmap₁] at hfirst
      cases hdata with
      | done hfirst' =>
          rw [hmap₃] at hfirst'
          refine ⟨i, start, hfirst, le_of_le_of_eq hfirst'.fits hcnt₂, fun j hj hj' => ?_⟩
          have hunset := hfirst'.run j hj hj'
          rw [htest₂] at hunset
          split at hunset
          · cases hunset
          · exact ⟨by omega, hunset⟩

/-- With memory, a directory that has an entry left takes any new name that a file may have. -/
theorem FileSys.addOk_of_slot {mem : Mallocs} (hmem : mem.Ample) (hne : name.chars ≠ [])
    (hlen : name.chars.length ≤ NAME_MAX)
    (habsent : ∀ l, l < ROOT_ENTRIES → FileSys.names name (dir_entry s.fs_device l) = false)
    (hslot : ∃ l < ROOT_ENTRIES, (dir_entry s.fs_device l).in_use = false) :
    (s.setMem mem).AddOk name := by
  obtain ⟨mem', hmem'⟩ : ∃ mem', mem' = ((s.setMem mem).scanned (FileSys.names name)).2.2 :=
    ⟨_, rfl⟩
  have hscanned : mem'.Ample := hmem' ▸ Mallocs.Ample.scanned (s := s.setMem mem) hmem _
  rcases hslot with ⟨l, hl, hunused⟩
  have hfound : (((s.setMem mem).setMem mem').scanned fun e => !e.in_use).1 = true := by
    by_contra hfull
    have hused := (FileSys.scanned_none (s := (s.setMem mem).setMem mem') hscanned
      (Bool.eq_false_of_not_eq_true hfull)).2 l hl
    rw [FileSys.setMem_fs_device, FileSys.setMem_fs_device, hunused] at hused
    exact absurd hused (by decide)
  refine ⟨hne, hlen, ?_, ?_, ?_⟩
  · by_contra hname
    rcases FileSys.scanned_found (Bool.eq_true_of_not_eq_false hname) with ⟨hlt, hname⟩
    rw [FileSys.setMem_fs_device, habsent _ hlt] at hname
    cases hname
  · rw [← hmem']
    exact (FileSys.scanned_found hfound).1
  · rw [← hmem']
    exact Mallocs.Ample.scanned (s := (s.setMem mem).setMem mem') hscanned _ 0

namespace Refines

/-- Fewer names than entries leave an entry that is not in use. -/
theorem slot (h : Refines s m) (hcard : m.names.keys.card < ROOT_ENTRIES) :
    ∃ l < ROOT_ENTRIES, (dir_entry s.fs_device l).in_use = false := by
  by_contra hnone
  have hused : ∀ l, l < ROOT_ENTRIES → (dir_entry s.fs_device l).in_use = true := fun l hl =>
    Bool.eq_true_of_not_eq_false fun hunused => hnone ⟨l, hl, hunused⟩
  have hnames : ∀ l, l < ROOT_ENTRIES →
      FileSys.names (cstr (dir_entry s.fs_device l).name) (dir_entry s.fs_device l) = true :=
    fun l hl => FileSys.names_iff.2 ⟨hused l hl, rfl⟩
  -- different entries have different names
  have hle : (Finset.range ROOT_ENTRIES).card ≤ m.names.keys.card := by
    refine Finset.card_le_card_of_injOn (fun l => cstr (dir_entry s.fs_device l).name)
      (fun l hl => ?_) fun l hl l' hl' heq => ?_
    · have hl := Finset.mem_range.1 (Finset.mem_coe.1 hl)
      have hlookup := (h.represents.names _ _).2 ⟨l, hl, hnames l hl, rfl⟩
      exact Finset.mem_coe.2 (Finmap.mem_keys.2 (Finmap.mem_iff.2 ⟨_, hlookup⟩))
    · have hl := Finset.mem_range.1 (Finset.mem_coe.1 hl)
      have hl' := Finset.mem_range.1 (Finset.mem_coe.1 hl')
      refine h.stable.distinct _ l l' hl hl' (hnames l hl) ?_
      simp only at heq
      rw [heq]
      exact hnames l' hl'
  rw [Finset.card_range] at hle
  omega

/-- An entry that is not in use leaves fewer names than entries. -/
theorem card_lt (h : Refines s m) {k : Nat} (hk : k < ROOT_ENTRIES)
    (hunused : (dir_entry s.fs_device k).in_use = false) : m.names.keys.card < ROOT_ENTRIES := by
  have hsub : m.names.keys ⊆ ((Finset.range ROOT_ENTRIES).erase k).image
      fun l => cstr (dir_entry s.fs_device l).name := by
    intro n hn
    rcases Finmap.mem_iff.1 (Finmap.mem_keys.1 hn) with ⟨i, hi⟩
    rcases (h.represents.names n i).1 hi with ⟨l, hl, hname, _⟩
    have huse := (FileSys.names_iff.1 hname).1
    have hne : l ≠ k := by
      rintro rfl
      rw [hunused] at huse
      cases huse
    exact Finset.mem_image.2 ⟨l, Finset.mem_erase.2 ⟨hne, Finset.mem_range.2 hl⟩,
      CString.eq_of_names (FileSys.names_iff.2 ⟨huse, rfl⟩) hname⟩
  have hcard := (Finset.card_le_card hsub).trans Finset.card_image_le
  rw [Finset.card_erase_of_mem (Finset.mem_range.2 hk), Finset.card_range] at hcard
  have hpos : 0 < ROOT_ENTRIES := by decide
  omega

end Refines

/-- A file of `size` bytes may be created under the name. -/
structure CreateFits (s : FileSys) (m : FileMap) (name : CString) (size : Nat) : Prop where
  ne_nil : name.chars ≠ []
  length_le : name.chars.length ≤ NAME_MAX
  new : m.names.lookup name = none
  entries : m.names.keys.card < ROOT_ENTRIES
  room : s.HasRoom size

namespace Refines

/-- A file is created if and only if it may be: nothing else makes `filesys_create` fail. -/
theorem create_iff (h : Refines s m) (name : CString) (hsize : size < OFF_T) (e : DirEntry) :
    ∃ ok t, s.filesys_create name size e = some (ok, t) ∧
      (ok = true ↔ CreateFits s m name size) := by
  have hb := h.stable.toBetween
  have hs := h.stable.ample
  rcases hb.inv.filesys_create name hsize e with ⟨ok, t, hcreate, hspec, _⟩
  refine ⟨ok, t, hcreate, fun hok => ?_, fun hfits => ?_⟩
  · subst hok
    cases hspec with
    | created _ _ hcreated =>
        rcases hcreated.entry with ⟨k, _, hk, hunused, _⟩
        exact ⟨hcreated.ne_nil, hcreated.length_le,
          h.represents.lookup_none (hcreated.absent hs), h.card_lt hk (hunused hs),
          hb.inv.hasRoom_of_create hsize hcreate⟩
  · have habsent : ∀ l, l < ROOT_ENTRIES →
        FileSys.names name (dir_entry s.fs_device l) = false := by
      intro l hl
      refine Bool.eq_false_of_not_eq_true fun hname => ?_
      have hnew := hfits.new
      rw [(h.represents.names name _).2 ⟨l, hl, hname, rfl⟩] at hnew
      cases hnew
    have hok : (s.setMem s.dir_mem).AddOk name :=
      FileSys.addOk_of_slot hs.dir_mem hfits.ne_nil hfits.length_le habsent (h.slot hfits.entries)
    rcases hb.inv.filesys_create_true hsize (hfits.room.reaches hs) hok e with ⟨_, t', heq, _⟩
    rw [hcreate] at heq
    exact (Prod.mk.inj (Option.some.inj heq)).1

/-- A file is created where there is room for it. -/
theorem create_free (h : Refines s m) (name : CString) (size : Nat) (e : DirEntry)
    (hfree : s.FreeFrom k)
    (hroom : k + 1 + bytes_to_sectors size ≤ s.free_map.bit_cnt) (hsize : size < OFF_T)
    (hne : name.chars ≠ []) (hlen : name.chars.length ≤ NAME_MAX)
    (hnew : m.names.lookup name = none) (hcard : m.names.keys.card < ROOT_ENTRIES) :
    ∃ i t, s.filesys_create name size e = some (true, t) ∧ m.Unused i ∧
      Refines t (m.put name i (List.replicate size 0)) ∧
      t.FreeFrom (k + 1 + bytes_to_sectors size) ∧ t.free_map.bit_cnt = s.free_map.bit_cnt := by
  have hb := h.stable.toBetween
  rcases h.create_iff name hsize e with ⟨ok, t, hcreate, hiff⟩
  obtain rfl := hiff.2 ⟨hne, hlen, hnew, hcard, hb.hasRoom_of_free_from hfree hroom⟩
  have hroom' := hb.inv.filesys_create_free_from hsize hfree hroom hcreate
  rcases step_of_create hsize hcreate with ⟨hallowed, hrun⟩
  rcases h.call hallowed hrun with ⟨m', hstep, ht⟩
  cases hstep with
  | created _ _ _ hi =>
      exact ⟨_, t, hcreate, hi, ht, hroom'⟩

end Refines

end Berk162
