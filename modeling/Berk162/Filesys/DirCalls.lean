import Berk162.Filesys.DirEntries
import Berk162.Filesys.DenyWrite

/-!
# DirCalls — `dir_add` and `dir_remove` while memory runs out

What the two functions do to the entries of an open directory, whichever calls of `malloc` fail.

`dir_add` takes a read that is short for want of memory for the end of the directory, both when it
looks for the name and when it looks for a slot; `AddsAt` is when it writes an entry all the same, and
where.  `dir_remove` gives an inode back, which may change the file of the free map; `DirReady` keeps
that file apart from the directory.
-/

namespace Berk162

variable {s s' : FileSys} {p q k r n : Nat} {i j : Inode} {data : InodeDisk} {name : CString}
  {e : DirEntry} {sector : Nat} {ok : Bool}

/-- Everything but the data on the device, the free map's bits and the memory is the same. -/
structure SameOpen (s s' : FileSys) : Prop where
  open_inodes : s'.open_inodes = s.open_inodes
  files : s'.files = s.files
  free_map_file : s'.free_map_file = s.free_map_file
  size : s'.fs_device.size = s.fs_device.size
  type : s'.fs_device.type = s.fs_device.type

theorem SameOpen.refl (s : FileSys) : SameOpen s s := ⟨rfl, rfl, rfl, rfl, rfl⟩

theorem SameOpen.trans {s'' : FileSys} (h : SameOpen s s') (h' : SameOpen s' s'') : SameOpen s s'' :=
  ⟨h'.open_inodes.trans h.open_inodes, h'.files.trans h.files,
    h'.free_map_file.trans h.free_map_file, h'.size.trans h.size, h'.type.trans h.type⟩

theorem SameOpen.set_mem (s : FileSys) (mem : Mallocs) : SameOpen s (s.setMem mem) :=
  ⟨rfl, rfl, rfl, rfl, rfl⟩

theorem InodeWritten.same_open {buffer : Bytes} {offset : Nat}
    (h : InodeWritten s s' i buffer offset n) (htype : s'.fs_device.type = s.fs_device.type) :
    SameOpen s s' where
  open_inodes := by
    have hrest := congrArg FileSys.open_inodes h.rest
    exact hrest
  files := by
    have hrest := congrArg FileSys.files h.rest
    exact hrest
  free_map_file := by
    have hrest := congrArg FileSys.free_map_file h.rest
    exact hrest
  size := h.size
  type := htype

/-- The entries are what they were. -/
def SameEntries (data : InodeDisk) (s s' : FileSys) : Prop :=
  ∀ l, l < dir_entries data → entry_at s'.fs_device data l = entry_at s.fs_device data l

theorem SameEntries.refl (data : InodeDisk) (s : FileSys) : SameEntries data s s := fun _ _ => rfl

theorem SameEntries.of_device (h : s'.fs_device = s.fs_device) : SameEntries data s s' := by
  intro l _
  rw [h]

theorem SameEntries.trans {s'' : FileSys} (h : SameEntries data s s')
    (h' : SameEntries data s' s'') : SameEntries data s s'' :=
  fun l hl => (h' l hl).trans (h l hl)

/-! ## `dir_add` -/

/-- The name is one that a file may have, the check does not find it, the search for a slot ends at
entry `r`, and there is memory to write that entry. -/
structure AddsAt (s : FileSys) (i : Inode) (name : CString) (r : Nat) : Prop where
  ne_nil : name.chars ≠ []
  length_le : name.chars.length ≤ NAME_MAX
  slot : r < dir_entries i.data
  writable : i.deny_write_cnt = 0
  mallocs : ∃ k, LoopEnd (entry_at s.fs_device i.data) (dir_entries i.data) s.mem
      (FileSys.names name) k ∧
    ¬ (k < dir_entries i.data ∧ s.mem k = true) ∧
    LoopEnd (entry_at s.fs_device i.data) (dir_entries i.data)
      (s.mem.drop (loop_mallocs i.data k)) (fun e => !e.in_use) r ∧
    s.mem (loop_mallocs i.data k + loop_mallocs i.data r) = true

/-- `dir_add` writes entry `r` if `AddsAt s i name r`, and returns true then; else it changes no
entry and returns false. -/
theorem dir_add_spec (h : DirOpen s p i) (name : CString) (hsector : sector < WORD) (e : DirEntry) :
    ∃ ok s', s.dir_add p name sector e = some (ok, s') ∧ SameOpen s s' ∧
      (ok = true ∧ (∃ r e', AddsAt s i name r ∧ e'.str = name.chars ∧ e'.inode_sector = sector ∧
          e'.in_use = true ∧ ∀ l, entry_at s'.fs_device i.data l =
            if l = r then e' else entry_at s.fs_device i.data l) ∨
        ok = false ∧ (∀ r, ¬ AddsAt s i name r) ∧ SameEntries i.data s s') := by
  by_cases hvalid : name.chars = [] ∨ name.chars.length > NAME_MAX
  · refine ⟨false, s, ?_, SameOpen.refl s, Or.inr ⟨rfl, fun r hadds => ?_, fun _ _ => rfl⟩⟩
    · rw [FileSys.dir_add, if_pos hvalid]
      rfl
    · exact hvalid.elim hadds.ne_nil (Nat.not_lt.2 hadds.length_le)
  · obtain ⟨k, hk, hlookup⟩ := h.lookup name e
    by_cases hfound : k < dir_entries i.data ∧ s.mem k = true
    · rw [if_pos hfound] at hlookup
      refine ⟨false, s.setMem (s.mem.drop (loop_mallocs i.data k)), ?_, SameOpen.set_mem s _,
        Or.inr ⟨rfl, fun r hadds => ?_, fun _ _ => rfl⟩⟩
      · rw [FileSys.dir_add, if_neg hvalid, hlookup]
        rfl
      · obtain ⟨l, hl, hnot, _⟩ := hadds.mallocs
        exact hnot (hk.unique hl ▸ hfound)
    · -- the name is not there, or the loop has not come to it
      rw [if_neg hfound] at hlookup
      obtain ⟨r, e₁, hscanned, hscan⟩ :=
        (h.set_mem (s.mem.drop (loop_mallocs i.data k))).scan_dir (fun e => !e.in_use) e
      obtain ⟨n, s', hwrite, hwritten, htype, hall, hnone⟩ :=
        ((h.set_mem (s.mem.drop (loop_mallocs i.data k))).set_mem
          ((s.mem.drop (loop_mallocs i.data k)).drop (loop_mallocs i.data r))).write_entry
          (e₁.fill name.chars sector) hscanned.loop_end.le
      have hsame := (SameOpen.set_mem s (s.mem.drop (loop_mallocs i.data k))).trans
        ((SameOpen.set_mem _ _).trans (hwritten.same_open htype))
      have hrun : s.dir_add p name sector e = some (decide (n = sizeof_dir_entry), s') := by
        rw [FileSys.dir_add, if_neg hvalid, hlookup]
        simp only [Option.bind_eq_bind, Option.bind_some, hscan, FileSys.setMem_mem, hwrite]
        rfl
      refine ⟨_, s', hrun, hsame, ?_⟩
      by_cases hn : n = sizeof_dir_entry
      · -- the entry is written
        subst hn
        obtain ⟨hlt, hdeny, hlast⟩ := hall.1 rfl
        have hlength : name.chars.length ≤ NAME_MAX := Nat.not_lt.1 fun hgt => hvalid (Or.inr hgt)
        have hne : name.chars ≠ [] := fun hnil => hvalid (Or.inl hnil)
        refine Or.inl ⟨decide_eq_true rfl, r, e₁.fill name.chars sector,
          ⟨hne, hlength, hlt, hdeny, k, hk, hfound, hscanned.loop_end, hlast⟩,
          DirEntry.str_fill e₁ name sector hlength, rfl, rfl, ?_⟩
        have hentry := entry_written hwritten hsector
        exact hentry
      · refine Or.inr ⟨decide_eq_false hn, fun r' hadds => hn (hall.2 ?_), fun l hl => ?_⟩
        · obtain ⟨k', hk', _, hr', hlast⟩ := hadds.mallocs
          obtain rfl := hk.unique hk'
          obtain rfl := hscanned.loop_end.unique hr'
          exact ⟨hadds.slot, hadds.writable, hlast⟩
        · exact entry_unwritten hwritten hscanned.loop_end.le (fun hlt => hnone hlt hn) hl

/-! ## References and the free map -/

/-- The inode at `q` is open with these data, and not only the references `held` lead to it. -/
def Held (inodes : Store Inode) (held : List Nat) (q : Nat) (data : InodeDisk) : Prop :=
  ∃ i, inodes.get q = some i ∧ i.data = data ∧ (held.count q : Int) < i.open_cnt

namespace Held

variable {inodes : Store Inode} {held : List Nat}

theorem alloc (h : Held inodes held q data) (i : Inode) :
    Held (inodes.alloc i) (inodes.next :: held) q data := by
  obtain ⟨j, hj, hdata, hcnt⟩ := h
  have hne : q ≠ inodes.next := Nat.ne_of_lt (Store.get_lt hj)
  refine ⟨j, (Store.get_alloc_of_ne hne).trans hj, hdata, ?_⟩
  rw [List.count_cons_of_ne (Ne.symm hne)]
  exact hcnt

/-- The count of references to `p` goes up or down by as many as the caller gets or gives. -/
theorem set {held' : List Nat} (h : Held inodes held q data) (hp : inodes.get p = some i)
    (hdata : j.data = i.data)
    (hself : j.open_cnt - (held'.count p : Int) = i.open_cnt - (held.count p : Int))
    (hother : ∀ q, q ≠ p → held'.count q = held.count q) :
    Held (inodes.set p j) held' q data := by
  obtain ⟨l, hl, hldata, hcnt⟩ := h
  by_cases hqp : q = p
  · subst hqp
    obtain rfl := Option.some.inj (hl.symm.trans hp)
    exact ⟨j, Store.get_set_self hp, hdata.trans hldata, by omega⟩
  · refine ⟨l, (Store.get_set_of_ne hqp).trans hl, hldata, ?_⟩
    rw [hother q hqp]
    exact hcnt

/-- An inode that is given back for the last time is not one that other references lead to. -/
theorem close (h : Held inodes held q data) (hp : inodes.get p = some i) (hheld : p ∈ held) :
    Held (if i.open_cnt - 1 = 0 then inodes.erase p
      else inodes.set p { i with open_cnt := i.open_cnt - 1 }) (held.erase p) q data := by
  have hpos := List.count_pos_iff.2 hheld
  split
  · next hlast =>
    obtain ⟨l, hl, hldata, hcnt⟩ := h
    have hqp : q ≠ p := by
      rintro rfl
      obtain rfl := Option.some.inj (hl.symm.trans hp)
      omega
    refine ⟨l, (Store.get_erase_of_ne hqp).trans hl, hldata, ?_⟩
    rw [List.count_erase_of_ne hqp]
    exact hcnt
  · refine h.set hp rfl ?_ fun q hq => List.count_erase_of_ne hq
    rw [List.count_erase_self]
    change i.open_cnt - 1 - _ = _
    omega

end Held

/-- The sectors of the one are not those of the other. -/
def Apart (data data' : InodeDisk) : Prop :=
  data.start + bytes_to_sectors data.length ≤ data'.start ∨
    data'.start + bytes_to_sectors data'.length ≤ data.start

/-- The inode at `p` is open as a directory with these data, on a device that can be written, and if
the free map has a file, that one is open as well and lies elsewhere.  The references `held` will be
given back. -/
structure DirReady (s : FileSys) (held : List Nat) (p : Nat) (data : InodeDisk) : Prop where
  dir : Held s.open_inodes held p data
  fits : data.Fits s.fs_device
  type : s.fs_device.type ≠ .foreign
  free_map : ∀ f, s.free_map_file = some f → ∃ file map, s.files.get f = some file ∧
    Held s.open_inodes held file.inode map ∧ map.Fits s.fs_device ∧ Apart map data

/-- A write within the sectors of other data changes no entry. -/
theorem same_entries_of_sectors (hlength : data.length < OFF_T)
    (h : ∀ a, data.start ≤ a → a < data.start + bytes_to_sectors data.length →
      s'.fs_device.sectors a = s.fs_device.sectors a) : SameEntries data s s' := by
  intro k hk
  have hsize : sizeof_dir_entry = 20 := rfl
  refine DirEntry.ofBytes_congr fun j hj => ?_
  have hin : k * sizeof_dir_entry + j < data.length := by
    rw [dir_entries, hsize] at hk
    rw [hsize] at hj ⊢
    omega
  have hlt := div_lt_bytes_to_sectors hlength hin
  rw [Block.byte, Block.byte, h _ (Nat.le_add_right _ _) (Nat.add_lt_add_left hlt _)]

theorem inode_write_at_type {buffer : Bytes} {offset : Nat} (hp : s.open_inodes.get p = some i)
    (hfits : i.data.Fits s.fs_device) (htype : s.fs_device.type ≠ .foreign)
    (hwrite : s.inode_write_at p buffer offset = some (n, s')) :
    s'.fs_device.type = s.fs_device.type := by
  simp only [FileSys.inode_write_at, hp, inode_write_loop_eq hfits htype, Option.bind_eq_bind,
    Option.bind_some] at hwrite
  split at hwrite
  · cases hwrite
    rfl
  · cases hwrite
    rfl

/-- What `inode_open` can do: nothing for want of memory, or one more reference to an inode, which was
open or is made now. -/
theorem inode_open_cases {r : Option Nat} (hopen : s.inode_open sector = some (r, s')) :
    (s'.fs_device = s.fs_device ∧ s'.files = s.files ∧ s'.free_map_file = s.free_map_file) ∧
      (r = none ∧ s'.open_inodes = s.open_inodes ∨
        (∃ q i, r = some q ∧ s.open_inodes.get q = some i ∧
          s'.open_inodes = s.open_inodes.set q { i with open_cnt := i.open_cnt + 1 }) ∨
        ∃ i, r = some s.open_inodes.next ∧ s'.open_inodes = s.open_inodes.alloc i) := by
  rw [FileSys.inode_open] at hopen
  split at hopen
  · next q _ _ =>
    obtain ⟨t, hreopen, hret⟩ := Option.bind_eq_some_iff.1 hopen
    obtain ⟨i, hi, hset⟩ := Option.bind_eq_some_iff.1 hreopen
    cases hset
    cases hret
    exact ⟨⟨rfl, rfl, rfl⟩, Or.inr (Or.inl ⟨q, i, rfl, hi, rfl⟩)⟩
  · cases hok : s.mem.malloc.1 with
    | false =>
        simp only [FileSys.malloc, hok] at hopen
        cases hopen
        exact ⟨⟨rfl, rfl, rfl⟩, Or.inl ⟨rfl, rfl⟩⟩
    | true =>
        simp only [FileSys.malloc, hok] at hopen
        obtain ⟨bytes, _, hret⟩ := Option.bind_eq_some_iff.1 hopen
        cases hret
        exact ⟨⟨rfl, rfl, rfl⟩, Or.inr (Or.inr ⟨_, rfl, rfl⟩)⟩

namespace DirReady

variable {held held' : List Nat}

theorem mono (h : DirReady s held p data)
    (hheld : ∀ q data, Held s.open_inodes held q data → Held s'.open_inodes held' q data)
    (hfiles : s'.files = s.files) (hmap : s'.free_map_file = s.free_map_file)
    (hsize : s'.fs_device.size = s.fs_device.size)
    (htype : s'.fs_device.type = s.fs_device.type) : DirReady s' held' p data where
  dir := hheld p data h.dir
  fits := h.fits.of_size hsize
  type := by
    rw [htype]
    exact h.type
  free_map f hf := by
    rw [hmap] at hf
    obtain ⟨file, map, hfile, hopen, hfits, hapart⟩ := h.free_map f hf
    refine ⟨file, map, ?_, hheld _ _ hopen, hfits.of_size hsize, hapart⟩
    rw [hfiles]
    exact hfile

theorem same_open (h : DirReady s held p data) (hsame : SameOpen s s') :
    DirReady s' held p data := by
  refine h.mono (fun q data hq => ?_) hsame.files hsame.free_map_file hsame.size hsame.type
  rw [hsame.open_inodes]
  exact hq

theorem dir_open (h : DirReady s held p data) : ∃ i, DirOpen s p i ∧ i.data = data := by
  obtain ⟨i, hi, hdata, _⟩ := h.dir
  exact ⟨i, ⟨hi, by rw [hdata]; exact h.fits, h.type⟩, hdata⟩

/-- The free map is written to its own file. -/
theorem free_map_release {cnt : Nat} (h : DirReady s held p data)
    (hrelease : s.free_map_release sector cnt = some s') :
    DirReady s' held p data ∧ SameEntries data s s' := by
  simp only [FileSys.free_map_release, FileSys.bitmap_write, FileSys.file_write_at,
    Option.bind_eq_bind, Option.bind_eq_some_iff] at hrelease
  obtain ⟨_, _, _, _, b, _, f, hf, ⟨r, t⟩, ⟨⟨n, u⟩, ⟨file, hfile, hwrite⟩, hret⟩, hdone⟩ := hrelease
  obtain ⟨rfl, rfl⟩ := Prod.mk.inj (Option.some.inj hret)
  obtain rfl : u = s' := Option.some.inj hdone
  obtain ⟨file', map, hfile', ⟨i, hi, rfl, _⟩, hfits, hapart⟩ := h.free_map f hf
  obtain rfl : file' = file := Option.some.inj (hfile'.symm.trans hfile)
  obtain ⟨n', u', hwrite', hwritten, _⟩ := inode_write_at_spec (s := s.setMap b) hi hfits h.type
    (b.elems.take (byte_cnt b.bit_cnt)) 0
  obtain ⟨rfl, rfl⟩ := Prod.mk.inj (Option.some.inj (hwrite'.symm.trans hwrite))
  have hsame := hwritten.same_open (inode_write_at_type (s := s.setMap b) hi hfits h.type hwrite)
  have hopen : SameOpen s u' :=
    ⟨hsame.open_inodes, hsame.files, hsame.free_map_file, hsame.size, hsame.type⟩
  refine ⟨h.same_open hopen, same_entries_of_sectors h.fits.length_lt fun a hle hlt => ?_⟩
  refine hwritten.sectors a ?_
  rcases hapart with hbelow | habove
  · exact Or.inr (by omega)
  · exact Or.inl (by omega)

theorem inode_open {r : Option Nat} (h : DirReady s held p data)
    (hopen : s.inode_open sector = some (r, s')) :
    DirReady s' (r.toList ++ held) p data ∧ s'.fs_device = s.fs_device := by
  obtain ⟨⟨hdev, hfiles, hmap⟩, hcases⟩ := inode_open_cases hopen
  refine ⟨h.mono (fun q data hq => ?_) hfiles hmap (congrArg Block.size hdev)
    (congrArg Block.type hdev), hdev⟩
  obtain ⟨rfl, hinodes⟩ | ⟨q', i, rfl, hi, hinodes⟩ | ⟨i, rfl, hinodes⟩ := hcases
  · rw [hinodes]
    exact hq
  · rw [hinodes]
    refine hq.set hi rfl ?_ fun q hne => List.count_cons_of_ne (Ne.symm hne)
    simp only [Option.toList, List.singleton_append, List.count_cons_self]
    omega
  · rw [hinodes]
    exact hq.alloc i

theorem inode_remove (h : DirReady s held p data) (hremove : s.inode_remove q = some s') :
    DirReady s' held p data ∧ s'.fs_device = s.fs_device := by
  obtain ⟨i, hi, hset⟩ := Option.bind_eq_some_iff.1 hremove
  cases hset
  exact ⟨h.mono (fun _ _ hheld => hheld.set hi rfl rfl fun _ _ => rfl) rfl rfl rfl rfl, rfl⟩

theorem inode_close (h : DirReady s held p data) (hq : q ∈ held)
    (hclose : s.inode_close (some q) = some s') :
    DirReady s' (held.erase q) p data ∧ SameEntries data s s' := by
  obtain ⟨i, hi, hclose⟩ := Option.bind_eq_some_iff.1 hclose
  have hclosed : ∀ inodes, inodes = (if i.open_cnt - 1 = 0 then s.open_inodes.erase q
      else s.open_inodes.set q { i with open_cnt := i.open_cnt - 1 }) →
      DirReady (s.setInodes inodes) (held.erase q) p data := by
    rintro _ rfl
    exact h.mono (fun _ _ hheld => hheld.close hi hq) rfl rfl rfl rfl
  by_cases hlast : i.open_cnt - 1 = 0
  · rw [if_pos hlast] at hclose hclosed
    split at hclose
    · -- the sectors of the inode are released, and the map written twice
      obtain ⟨t, hfirst, hsecond⟩ := Option.bind_eq_some_iff.1 hclose
      obtain ⟨ht, hsame⟩ := (hclosed _ rfl).free_map_release hfirst
      obtain ⟨hs', hsame'⟩ := ht.free_map_release hsecond
      exact ⟨hs', SameEntries.trans (s := s) hsame hsame'⟩
    · cases hclose
      exact ⟨hclosed _ rfl, SameEntries.refl data s⟩
  · rw [if_neg hlast] at hclose hclosed
    cases hclose
    exact ⟨hclosed _ rfl, SameEntries.refl data s⟩

/-! ## `dir_remove` -/

/-- `dir_remove` marks the entry of the name as not in use and returns true, or it changes no entry
and returns false. -/
theorem dir_remove_spec (h : DirReady s [] p data)
    (hrun : s.dir_remove p name e = some (ok, s')) : DirReady s' [] p data ∧
      (ok = true ∧ (∃ r, r < dir_entries data ∧
          FileSys.names name (entry_at s.fs_device data r) = true ∧
          ∀ l, l < dir_entries data → entry_at s'.fs_device data l =
            if l = r then { entry_at s.fs_device data r with in_use := false }
            else entry_at s.fs_device data l) ∨
        ok = false ∧ SameEntries data s s') := by
  obtain ⟨i, hdir, hdata⟩ := h.dir_open
  obtain ⟨k, hk, hlookup⟩ := hdir.lookup name e
  rw [hdata] at hk hlookup
  have hready := h.same_open (SameOpen.set_mem s (s.mem.drop (loop_mallocs data k)))
  rw [FileSys.dir_remove, hlookup] at hrun
  by_cases hfound : k < dir_entries data ∧ s.mem k = true
  · rw [if_pos hfound, Option.bind_eq_bind, Option.bind_some] at hrun
    obtain ⟨⟨inode, t⟩, hopen, hrun⟩ := Option.bind_eq_some_iff.1 hrun
    obtain ⟨ht, hdev⟩ := hready.inode_open hopen
    cases inode with
    | none =>
        cases hrun
        exact ⟨ht, Or.inr ⟨rfl, SameEntries.of_device hdev⟩⟩
    | some q =>
        obtain ⟨j, hdir', hdata'⟩ := ht.dir_open
        obtain ⟨n, u, hwrite, hwritten, htype, _, hnone⟩ := hdir'.write_entry
          { entry_at s.fs_device data k with in_use := false }
          (Nat.le_of_lt (hdata'.symm ▸ hfound.1))
        have hu := ht.same_open (hwritten.same_open htype)
        have hback : ((some q).toList ++ []).erase q = [] := List.erase_cons_head q []
        simp only [hwrite, Option.bind_eq_bind, Option.bind_some] at hrun
        by_cases hn : n = sizeof_dir_entry
        · subst hn
          rw [if_neg (not_not.2 rfl)] at hrun
          obtain ⟨v, hremove, hrun⟩ := Option.bind_eq_some_iff.1 hrun
          obtain ⟨w, hclose, hret⟩ := Option.bind_eq_some_iff.1 hrun
          cases hret
          obtain ⟨hv, hdev'⟩ := hu.inode_remove hremove
          obtain ⟨hw, hsame⟩ := hv.inode_close (List.mem_singleton.2 rfl) hclose
          rw [hback] at hw
          have hnames : FileSys.names name (entry_at s.fs_device data k) = true :=
            (hk.here hfound.1).resolve_left (by rw [hfound.2]; exact Bool.noConfusion)
          have hentry := entry_written hwritten (entry_at_sector_lt s.fs_device data k)
          rw [hdata', hdev] at hentry
          refine ⟨hw, Or.inl ⟨rfl, k, hfound.1, hnames, fun l hl => ?_⟩⟩
          rw [hsame l hl, hdev']
          exact hentry l
        · rw [if_pos hn] at hrun
          obtain ⟨w, hclose, hret⟩ := Option.bind_eq_some_iff.1 hrun
          cases hret
          obtain ⟨hw, hsame⟩ := hu.inode_close (List.mem_singleton.2 rfl) hclose
          rw [hback] at hw
          -- of one entry nothing is written if not all is
          have hunwritten : SameEntries data t u := by
            intro l hl
            rw [← hdata'] at hl hfound ⊢
            exact entry_unwritten hwritten (Nat.le_of_lt hfound.1) (fun hlt => hnone hlt hn) hl
          exact ⟨hw, Or.inr ⟨rfl,
            ((SameEntries.of_device hdev).trans hunwritten).trans hsame⟩⟩
  · rw [if_neg hfound] at hrun
    cases hrun
    exact ⟨hready, Or.inr ⟨rfl, fun _ _ => rfl⟩⟩

end DirReady

end Berk162
