import Berk162.Filesys.FsMap

/-!
# FsOpen — opening and closing, under the invariant

`inode_open` and its relatives change who holds which inode; the last `inode_close` of an inode that
was removed releases its sectors.
-/

namespace Berk162

variable {s s' : FileSys} {held held' : List Nat} {p sector : Nat} {inode inode' : Inode}

/-- A step that leaves the disk and the free map alone, and opens no inode that is not live. -/
theorem FsInv.of_open (h : FsInv held s) (hdev : s'.fs_device = s.fs_device)
    (hmap : s'.free_map = s.free_map) (hlive : ∀ i, s'.Opened i → s.Live i)
    (hopen : OpenInv s' held')
    (hfile : ∃ f file inode, s'.free_map_file = some f ∧ s'.files.get f = some file ∧
      s'.open_inodes.get file.inode = some inode ∧ inode.sector = FREE_MAP_SECTOR) :
    FsInv held' s' := by
  refine ⟨?_, ?_, hopen, ⟨hfile, ?_⟩⟩
  · rw [hdev, hmap]
    refine h.layout.mono fun i hi => ?_
    rcases hi with hi | hi | hi | hi
    · exact Or.inl hi
    · exact Or.inr (Or.inl hi)
    · rw [hdev] at hi
      exact Or.inr (Or.inr (Or.inl hi))
    · exact hlive i hi
  · rw [hdev]
    exact h.dir
  · rw [hdev, hmap]
    exact h.map_file.length_eq

/-! ## The open inodes -/

namespace OpenInv

/-- The holders of an inode change, or whether it is removed. -/
theorem set (h : OpenInv s held) (hp : s.open_inodes.get p = some inode)
    (hsector : inode'.sector = inode.sector) (hdata : inode'.data = inode.data)
    (hdeny : inode'.deny_write_cnt = inode.deny_write_cnt)
    (hremoved : inode'.removed = true → ¬ Named s.fs_device inode.sector ∧
      inode.sector ≠ FREE_MAP_SECTOR ∧ inode.sector ≠ ROOT_DIR_SECTOR)
    (hcount : inode'.open_cnt = (s.files.count fun f => f.inode = p : Nat) + (held'.count p : Nat))
    (hpos : 0 < inode'.open_cnt) (hother : ∀ q, q ≠ p → held'.count q = held.count q) :
    OpenInv (s.setInodes (s.open_inodes.set p inode')) held' := by
  have hself := Store.get_set_self (a := inode') hp
  have hne : ∀ q, q ≠ p → (s.open_inodes.set p inode').get q = s.open_inodes.get q :=
    fun q hq => Store.get_set_of_ne hq
  -- each inode of the new store stems from one of the old, with the same sector and data
  have hold : ∀ q i', (s.open_inodes.set p inode').get q = some i' →
      ∃ i, s.open_inodes.get q = some i ∧ i'.sector = i.sector ∧ i'.data = i.data ∧
        i'.deny_write_cnt = i.deny_write_cnt ∧ (q = p ∧ i' = inode' ∧ i = inode ∨ q ≠ p ∧ i' = i) := by
    intro q i' hq
    by_cases hqp : q = p
    · subst hqp
      obtain rfl : inode' = i' := Option.some.inj (hself.symm.trans hq)
      exact ⟨inode, hp, hsector, hdata, hdeny, Or.inl ⟨rfl, rfl, rfl⟩⟩
    · rw [hne q hqp] at hq
      exact ⟨i', hq, rfl, rfl, rfl, Or.inr ⟨hqp, rfl⟩⟩
  have hnew : ∀ q i, s.open_inodes.get q = some i →
      ∃ i', (s.open_inodes.set p inode').get q = some i' := by
    intro q i hq
    by_cases hqp : q = p
    · exact ⟨inode', hqp ▸ hself⟩
    · exact ⟨i, (hne q hqp).trans hq⟩
  constructor
  · intro q r i j hq hr hij
    rcases hold q i hq with ⟨i₀, hq₀, his, _⟩
    rcases hold r j hr with ⟨j₀, hr₀, hjs, _⟩
    exact h.sector_one q r i₀ j₀ hq₀ hr₀ (his.symm.trans (hij.trans hjs))
  · intro q i hq
    rcases hold q i hq with ⟨i₀, hq₀, his, hid, _⟩
    rw [hid, his]
    exact h.data_eq q i₀ hq₀
  · intro q i hq
    rcases hold q i hq with ⟨i₀, hq₀, _, _, _, ⟨rfl, rfl, _⟩ | ⟨hqp, rfl⟩⟩
    · exact hcount
    · rw [hother q hqp]
      exact h.count q _ hq₀
  · intro q i hq
    rcases hold q i hq with ⟨i₀, hq₀, _, _, _, ⟨_, rfl, _⟩ | ⟨_, rfl⟩⟩
    · exact hpos
    · exact h.count_pos q _ hq₀
  · intro f file hf
    rcases h.file_open f file hf with ⟨hw, i, hi⟩
    exact ⟨hw, hnew _ i hi⟩
  · intro q hq
    by_cases hqp : q = p
    · exact ⟨inode', hqp ▸ hself⟩
    · have hmem : q ∈ held := List.count_pos_iff.1 (hother q hqp ▸ List.count_pos_iff.2 hq)
      rcases h.held_open q hmem with ⟨i, hi⟩
      exact hnew q i hi
  · intro q i hq
    rcases hold q i hq with ⟨i₀, hq₀, _, _, hid, _⟩
    rw [hid]
    exact h.no_deny q i₀ hq₀
  · intro q i hq hr
    rcases hold q i hq with ⟨i₀, hq₀, his, _, _, ⟨rfl, rfl, rfl⟩ | ⟨_, rfl⟩⟩
    · rw [his]
      exact hremoved hr
    · exact h.removed q _ hq₀ hr

/-- The last holder of an inode lets it go. -/
theorem erase (h : OpenInv s held) (hp : s.open_inodes.get p = some inode) (hheld : p ∈ held)
    (hlast : inode.open_cnt = 1) :
    (∀ f file, s.files.get f = some file → file.inode ≠ p) ∧
      OpenInv (s.setInodes (s.open_inodes.erase p)) (held.erase p) := by
  have hcount := h.count p inode hp
  have hone := List.count_pos_iff.2 hheld
  have hfiles : ∀ f file, s.files.get f = some file → file.inode ≠ p := by
    intro f file hf heq
    have hpos : 0 < s.files.count fun f => decide (f.inode = p) :=
      Store.count_pos hf (decide_eq_true heq)
    omega
  have hgone : p ∉ held.erase p := by
    rw [← List.count_pos_iff, List.count_erase_self]
    omega
  refine ⟨hfiles, ?_⟩
  constructor
  · intro q r i j hq hr
    exact h.sector_one q r i j (Store.get_erase_eq_some.1 hq).2 (Store.get_erase_eq_some.1 hr).2
  · intro q i hq
    exact h.data_eq q i (Store.get_erase_eq_some.1 hq).2
  · intro q i hq
    rcases Store.get_erase_eq_some.1 hq with ⟨hqp, hq⟩
    rw [List.count_erase_of_ne hqp]
    exact h.count q i hq
  · intro q i hq
    exact h.count_pos q i (Store.get_erase_eq_some.1 hq).2
  · intro f file hf
    rcases h.file_open f file hf with ⟨hw, i, hi⟩
    exact ⟨hw, i, Store.get_erase_eq_some.2 ⟨hfiles f file hf, hi⟩⟩
  · intro q hq
    rcases h.held_open q (List.mem_of_mem_erase hq) with ⟨i, hi⟩
    exact ⟨i, Store.get_erase_eq_some.2 ⟨ne_of_mem_of_not_mem hq hgone, hi⟩⟩
  · intro q i hq
    exact h.no_deny q i (Store.get_erase_eq_some.1 hq).2
  · intro q i hq
    exact h.removed q i (Store.get_erase_eq_some.1 hq).2

/-- An inode that nobody has open is opened. -/
theorem alloc (h : OpenInv s held) (hnone : ¬ s.Opened sector) :
    OpenInv (s.setInodes (s.open_inodes.alloc ⟨sector, 1, false, 0, disk_inode s.fs_device sector⟩))
      (s.open_inodes.next :: held) := by
  have hfresh : s.open_inodes.get s.open_inodes.next = none := Store.get_next
  have hfiles : (s.files.count fun f => decide (f.inode = s.open_inodes.next)) = 0 := by
    refine Store.count_eq_zero fun f file hf => decide_eq_false fun heq => ?_
    rcases (h.file_open f file hf).2 with ⟨i, hi⟩
    rw [heq, hfresh] at hi
    cases hi
  have hheld : s.open_inodes.next ∉ held := by
    intro hmem
    rcases h.held_open _ hmem with ⟨i, hi⟩
    rw [hfresh] at hi
    cases hi
  have hcases := fun (q : Nat) (i : Inode) => @Store.get_alloc_eq_some Inode
    s.open_inodes q ⟨sector, 1, false, 0, disk_inode s.fs_device sector⟩ i
  constructor
  · intro q r i j hq hr hij
    rcases (hcases q i).1 hq with ⟨rfl, rfl⟩ | hq
    · rcases (hcases r j).1 hr with ⟨rfl, rfl⟩ | hr
      · rfl
      · exact absurd ⟨r, j, hr, hij.symm⟩ hnone
    · rcases (hcases r j).1 hr with ⟨rfl, rfl⟩ | hr
      · exact absurd ⟨q, i, hq, hij⟩ hnone
      · exact h.sector_one q r i j hq hr hij
  · intro q i hq
    rcases (hcases q i).1 hq with ⟨rfl, rfl⟩ | hq
    · rfl
    · exact h.data_eq q i hq
  · intro q i hq
    rcases (hcases q i).1 hq with ⟨rfl, rfl⟩ | hq
    · simp only [FileSys.setInodes_files, hfiles, List.count_cons_self, List.count_eq_zero.2 hheld]
      rfl
    · have hqn : s.open_inodes.next ≠ q := by
        rintro rfl
        rw [hfresh] at hq
        cases hq
      rw [List.count_cons_of_ne hqn]
      exact h.count q i hq
  · intro q i hq
    rcases (hcases q i).1 hq with ⟨rfl, rfl⟩ | hq
    · exact Int.one_pos
    · exact h.count_pos q i hq
  · intro f file hf
    rcases h.file_open f file hf with ⟨hw, i, hi⟩
    exact ⟨hw, i, (hcases _ _).2 (Or.inr hi)⟩
  · intro q hq
    rcases List.mem_cons.1 hq with rfl | hq
    · exact ⟨_, (hcases _ _).2 (Or.inl ⟨rfl, rfl⟩)⟩
    · rcases h.held_open q hq with ⟨i, hi⟩
      exact ⟨i, (hcases _ _).2 (Or.inr hi)⟩
  · intro q i hq
    rcases (hcases q i).1 hq with ⟨rfl, rfl⟩ | hq
    · rfl
    · exact h.no_deny q i hq
  · intro q i hq hr
    rcases (hcases q i).1 hq with ⟨rfl, rfl⟩ | hq
    · cases hr
    · exact h.removed q i hq hr

end OpenInv

/-! ## Opening -/

namespace FsInv

theorem set_mem (h : FsInv held s) (mem : Mallocs) : FsInv held (s.setMem mem) :=
  h.change ⟨rfl, rfl, rfl, rfl, rfl, rfl, fun _ _ => rfl, fun _ _ => rfl, h.layout.marked⟩

/-- The holders of an inode change, or whether it is removed. -/
theorem set_inode (h : FsInv held s) (hp : s.open_inodes.get p = some inode)
    (hsector : inode'.sector = inode.sector)
    (hopen : OpenInv (s.setInodes (s.open_inodes.set p inode')) held') :
    FsInv held' (s.setInodes (s.open_inodes.set p inode')) := by
  have hself := Store.get_set_self (a := inode') hp
  refine h.of_open rfl rfl (fun i hi => ?_) hopen ?_
  · rcases hi with ⟨q, i', hq, rfl⟩
    by_cases hqp : q = p
    · subst hqp
      obtain rfl : inode' = i' := Option.some.inj (hself.symm.trans hq)
      rw [hsector]
      exact opened_live hp
    · exact opened_live ((Store.get_set_of_ne hqp).symm.trans hq)
  · rcases h.map_file.opened with ⟨f, file, i, hf, hfile, hi, hzero⟩
    by_cases hq : file.inode = p
    · obtain rfl : inode = i := Option.some.inj (hp.symm.trans (hq ▸ hi))
      exact ⟨f, file, inode', hf, hfile, hq ▸ hself, hsector.trans hzero⟩
    · exact ⟨f, file, i, hf, hfile, (Store.get_set_of_ne hq).trans hi, hzero⟩

/-- One more holder. -/
theorem reopen (h : FsInv held s) (hp : s.open_inodes.get p = some inode) :
    FsInv (p :: held)
      (s.setInodes (s.open_inodes.set p { inode with open_cnt := inode.open_cnt + 1 })) := by
  have hcount := h.opened.count p inode hp
  have hpos := h.opened.count_pos p inode hp
  refine h.set_inode hp rfl (h.opened.set hp rfl rfl rfl (h.opened.removed p inode hp) ?_ ?_ ?_)
  · rw [List.count_cons_self]
    simp only [hcount]
    omega
  · simp only
    omega
  · intro q hq
    exact List.count_cons_of_ne (Ne.symm hq)

end FsInv

/-- What `inode_open` does. -/
inductive OpenSpec (s : FileSys) (sector : Nat) : Option Nat → FileSys → Prop
  | again {p : Nat} {inode : Inode} :
      s.open_inodes.get p = some inode → inode.sector = sector →
      OpenSpec s sector (some p)
        (s.setInodes (s.open_inodes.set p { inode with open_cnt := inode.open_cnt + 1 }))
  | no_memory :
      ¬ s.Opened sector → s.mem 0 = false → OpenSpec s sector none (s.setMem s.mem.malloc.2)
  | first :
      ¬ s.Opened sector → s.mem 0 = true →
      OpenSpec s sector (some s.open_inodes.next)
        ((s.setMem s.mem.malloc.2).setInodes
          (s.open_inodes.alloc ⟨sector, 1, false, 0, disk_inode s.fs_device sector⟩))

namespace FsInv

theorem inode_reopen (hp : s.open_inodes.get p = some inode) :
    s.inode_reopen p = some
      (s.setInodes (s.open_inodes.set p { inode with open_cnt := inode.open_cnt + 1 })) := by
  simp only [FileSys.inode_reopen, hp, Option.bind_eq_bind, Option.bind_some]
  rfl

/-- The one that opens an inode holds it. -/
theorem of_openSpec (h : FsInv held s) (hlive : s.Live sector) {r : Option Nat}
    (hspec : OpenSpec s sector r s') : FsInv (r.toList ++ held) s' := by
  cases hspec with
  | again hp =>
      exact h.reopen hp
  | no_memory =>
      exact h.set_mem _
  | first hnone =>
      have hm := h.set_mem s.mem.malloc.2
      refine hm.of_open rfl rfl (fun i hi => ?_) (hm.opened.alloc hnone) ?_
      · rcases hi with ⟨q, i', hq, rfl⟩
        rcases Store.get_alloc_eq_some.1 hq with ⟨rfl, rfl⟩ | hq
        · exact hlive
        · exact opened_live hq
      · rcases h.map_file.opened with ⟨f, file, i, hf, hfile, hi, hzero⟩
        exact ⟨f, file, i, hf, hfile, Store.get_alloc_eq_some.2 (Or.inr hi), hzero⟩

theorem inode_open (h : FsInv held s) (hlive : s.Live sector) :
    ∃ r s', s.inode_open sector = some (r, s') ∧ OpenSpec s sector r s' ∧
      FsInv (r.toList ++ held) s' := by
  suffices hsuff : ∃ r s', s.inode_open sector = some (r, s') ∧ OpenSpec s sector r s' by
    rcases hsuff with ⟨r, s', hopen, hspec⟩
    exact ⟨r, s', hopen, hspec, h.of_openSpec hlive hspec⟩
  cases hfind : s.open_inodes.cells.find? fun e => decide (e.2.sector = sector) with
  | some e =>
      rcases e with ⟨p, inode⟩
      have hp := Store.get_eq_some_iff.2 (List.mem_of_find?_eq_some hfind)
      have hsector : inode.sector = sector := by
        have hsome := List.find?_some hfind
        simpa using hsome
      refine ⟨some p, _, ?_, OpenSpec.again hp hsector⟩
      simp only [FileSys.inode_open, hfind, inode_reopen hp, Option.bind_eq_bind, Option.bind_some]
      rfl
  | none =>
      have hnone : ¬ s.Opened sector := by
        rintro ⟨p, inode, hp, hsector⟩
        have hnot := List.find?_eq_none.1 hfind _ (Store.get_eq_some_iff.1 hp)
        exact hnot (decide_eq_true hsector)
      cases hmem : s.mem 0 with
      | false =>
          refine ⟨none, _, ?_, OpenSpec.no_memory hnone hmem⟩
          have hmalloc : s.malloc = (false, s.setMem s.mem.malloc.2) := by
            rw [← hmem]
            rfl
          simp only [FileSys.inode_open, hfind, hmalloc]
      | true =>
          have hmalloc : s.malloc = (true, s.setMem s.mem.malloc.2) := by
            rw [← hmem]
            rfl
          have hlt : sector < (s.setMem s.mem.malloc.2).fs_device.size := by
            rw [FileSys.setMem_fs_device, h.layout.size_eq]
            exact h.layout.sector_lt _ hlive
          refine ⟨_, _, ?_, OpenSpec.first hnone hmem⟩
          simp only [FileSys.inode_open, hfind, hmalloc, block_read_eq hlt, Option.bind_eq_bind,
            Option.bind_some]
          rw [disk_inode]
          rfl

end FsInv

/-! ## Closing -/

/-- What `inode_close` does. -/
inductive CloseSpec (s : FileSys) (p : Nat) (inode : Inode) : FileSys → Prop
  | kept :
      inode.open_cnt ≠ 1 →
      CloseSpec s p inode
        (s.setInodes (s.open_inodes.set p { inode with open_cnt := inode.open_cnt - 1 }))
  | last :
      inode.open_cnt = 1 → inode.removed = false →
      CloseSpec s p inode (s.setInodes (s.open_inodes.erase p))
  | freed {s₁ s₂ : FileSys} :
      inode.open_cnt = 1 → inode.removed = true →
      ReleaseSpec (s.setInodes (s.open_inodes.erase p)) inode.sector 1 s₁ →
      ReleaseSpec s₁ inode.data.start (bytes_to_sectors inode.data.length) s₂ →
      CloseSpec s p inode s₂

namespace FsInv

theorem erase_live {i : Nat} (hi : (s.setInodes (s.open_inodes.erase p)).Live i) : s.Live i := by
  rcases hi with hi | hi | hi | ⟨q, i', hq, hsector⟩
  · exact Or.inl hi
  · exact Or.inr (Or.inl hi)
  · exact Or.inr (Or.inr (Or.inl hi))
  · exact Or.inr (Or.inr (Or.inr ⟨q, i', (Store.get_erase_eq_some.1 hq).2, hsector⟩))

/-- The last holder lets go. -/
theorem erase_inode (h : FsInv held s) (hp : s.open_inodes.get p = some inode) (hheld : p ∈ held)
    (hlast : inode.open_cnt = 1) :
    FsInv (held.erase p) (s.setInodes (s.open_inodes.erase p)) := by
  rcases h.opened.erase hp hheld hlast with ⟨hfiles, hopen⟩
  refine h.of_open rfl rfl (fun i hi => erase_live (Or.inr (Or.inr (Or.inr hi)))) hopen ?_
  rcases h.map_file.opened with ⟨f, file, i, hf, hfile, hi, hzero⟩
  exact ⟨f, file, i, hf, hfile, Store.get_erase_eq_some.2 ⟨hfiles f file hfile, hi⟩, hzero⟩

/-- A removed inode that nobody has open is not live any more. -/
theorem erase_dead (h : FsInv held s) (hp : s.open_inodes.get p = some inode)
    (hremoved : inode.removed = true) : ¬ (s.setInodes (s.open_inodes.erase p)).Live inode.sector := by
  rcases h.opened.removed p inode hp hremoved with ⟨hnamed, hmap, hroot⟩
  rintro (hi | hi | hi | ⟨q, i', hq, hsector⟩)
  · exact hmap hi
  · exact hroot hi
  · exact hnamed hi
  · rcases Store.get_erase_eq_some.1 hq with ⟨hqp, hq⟩
    exact hqp (h.opened.sector_one q p i' inode hq hp hsector)

theorem inode_close (h : FsInv held s) (hp : s.open_inodes.get p = some inode) (hheld : p ∈ held) :
    ∃ s', s.inode_close (some p) = some s' ∧ CloseSpec s p inode s' ∧ FsInv (held.erase p) s' := by
  have hcount := h.opened.count p inode hp
  by_cases hlast : inode.open_cnt = 1
  · have hinv := h.erase_inode hp hheld hlast
    have hzero : inode.open_cnt - 1 = 0 := by omega
    cases hremoved : inode.removed with
    | false =>
        refine ⟨_, ?_, CloseSpec.last hlast hremoved, hinv⟩
        simp only [FileSys.inode_close, hp, hzero, if_true, hremoved, Bool.false_eq_true, if_false,
          Option.bind_eq_bind, Option.bind_some]
        rfl
    | true =>
        have hlive := opened_live hp
        have hdead := h.erase_dead hp hremoved
        have hdata := h.opened.data_eq p inode hp
        -- no live inode has a cell in common with the one that is freed
        have hapart : ∀ i a, (s.setInodes (s.open_inodes.erase p)).Live i →
            Cell s.fs_device i a → ¬ Cell s.fs_device inode.sector a := by
          intro i a hi hia
          exact h.layout.apart i _ a (erase_live hi) hlive (fun heq => hdead (heq ▸ hi)) hia
        have hsector := h.layout.sector_lt _ hlive
        rcases @FsInv.free_map_release _ _ hinv inode.sector 1 hsector
            (fun a ha ha' => h.layout.marked _ a hlive (Or.inl (by omega)))
            (fun i a hi hia hmem => hapart i a hi hia (Or.inl (by omega))) with
          ⟨s₁, hs₁, hspec₁, hu₁⟩
        have hinv₁ := hinv.change hu₁
        have hrun : s₁.free_map.RunAt inode.data.start (bytes_to_sectors inode.data.length) true := by
          intro a ha ha'
          have hmem : a ∈ data_extent s.fs_device inode.sector := by
            rw [mem_data_extent, ← hdata]
            exact ⟨ha, ha'⟩
          have hne : ¬ (inode.sector ≤ a ∧ a < inode.sector + 1) := by
            intro hin
            have heq : a = inode.sector := by omega
            exact h.layout.self _ hlive (heq ▸ hmem)
          rw [hspec₁.test, if_neg hne]
          exact h.layout.marked _ a hlive (Or.inr hmem)
        have hin : inode.data.start + bytes_to_sectors inode.data.length ≤ s₁.free_map.bit_cnt := by
          rw [hspec₁.step.bit_cnt, hdata, FileSys.setInodes_free_map]
          simpa only [data_extent] using h.layout.inside _ hlive
        have hfree : ∀ i a, s₁.Live i → Cell s₁.fs_device i a →
            ¬ (inode.data.start ≤ a ∧ a < inode.data.start + bytes_to_sectors inode.data.length) := by
          intro i a hi hia hmem
          have hi₀ := (hu₁.live hinv.dir i).1 hi
          refine hapart i a hi₀ ((cell_congr (hu₁.inodes i hi₀)).1 hia) (Or.inr ?_)
          rw [mem_data_extent, ← hdata]
          exact hmem
        rcases hinv₁.free_map_release hin hrun hfree with ⟨s₂, hs₂, hspec₂, hu₂⟩
        refine ⟨s₂, ?_, CloseSpec.freed hlast hremoved hspec₁ hspec₂, hinv₁.change hu₂⟩
        simp only [FileSys.inode_close, hp, hzero, if_true, hremoved, hs₁, hs₂, Option.bind_eq_bind,
          Option.bind_some]
  · refine ⟨_, ?_, CloseSpec.kept hlast, h.set_inode hp rfl (h.opened.set hp rfl rfl rfl
      (h.opened.removed p inode hp) ?_ ?_ ?_)⟩
    · have hne : ¬ inode.open_cnt - 1 = 0 := by omega
      simp only [FileSys.inode_close, hp, hne, if_false, Option.bind_eq_bind, Option.bind_some]
      rfl
    · have hone := List.count_pos_iff.2 hheld
      rw [List.count_erase_self]
      simp only [hcount]
      omega
    · have hpos := h.opened.count_pos p inode hp
      simp only
      omega
    · intro q hq
      exact List.count_erase_of_ne hq

end FsInv

/-! ## Files -/

/-! The open files matter to the functions on inodes only as far as the free map's file goes. -/

theorem inode_write_at_setFiles {buffer : Bytes} {ofs n : Nat}
    (h : s.inode_write_at p buffer ofs = some (n, s')) :
    s'.files = s.files ∧ s'.free_map_file = s.free_map_file ∧
      ∀ F, (s.setFiles F).inode_write_at p buffer ofs = some (n, s'.setFiles F) := by
  simp only [FileSys.inode_write_at, Option.bind_eq_bind, Option.bind_eq_some_iff] at h
  rcases h with ⟨i, hi, h⟩
  split at h
  · rename_i hdeny
    rcases Prod.mk.inj (Option.some.inj h) with ⟨rfl, rfl⟩
    refine ⟨rfl, rfl, fun F => ?_⟩
    simp only [FileSys.inode_write_at, FileSys.setFiles_open_inodes, hi, Option.bind_eq_bind,
      Option.bind_some, if_pos hdeny]
    rfl
  · rename_i hdeny
    rcases Option.bind_eq_some_iff.1 h with ⟨⟨m, dev, mem⟩, hloop, h⟩
    rcases Prod.mk.inj (Option.some.inj h) with ⟨rfl, rfl⟩
    refine ⟨rfl, rfl, fun F => ?_⟩
    simp only [FileSys.inode_write_at, FileSys.setFiles_open_inodes, FileSys.setFiles_fs_device,
      FileSys.setFiles_mem, hi, hloop, Option.bind_eq_bind, Option.bind_some, if_neg hdeny]
    rfl

theorem bitmap_write_setFiles {b : Bitmap} {f : Nat} {r : Bool}
    (h : s.bitmap_write b f = some (r, s')) :
    s'.files = s.files ∧ s'.free_map_file = s.free_map_file ∧
      ∀ F : Store File, F.get f = s.files.get f →
        (s.setFiles F).bitmap_write b f = some (r, s'.setFiles F) := by
  simp only [FileSys.bitmap_write, FileSys.file_write_at, Option.bind_eq_bind,
    Option.bind_eq_some_iff] at h
  rcases h with ⟨⟨n, t⟩, ⟨file, hfile, hwrite⟩, h⟩
  rcases Prod.mk.inj (Option.some.inj h) with ⟨rfl, rfl⟩
  rcases inode_write_at_setFiles hwrite with ⟨hfiles, hmap, hset⟩
  refine ⟨hfiles, hmap, fun F hF => ?_⟩
  simp only [FileSys.bitmap_write, FileSys.file_write_at, FileSys.setFiles_files, hF, hfile, hset,
    Option.bind_eq_bind, Option.bind_some]
  rfl

theorem free_map_release_setFiles {sector cnt f : Nat} (hf : s.free_map_file = some f)
    (h : s.free_map_release sector cnt = some s') :
    s'.files = s.files ∧ s'.free_map_file = s.free_map_file ∧
      ∀ F : Store File, F.get f = s.files.get f →
        (s.setFiles F).free_map_release sector cnt = some (s'.setFiles F) := by
  simp only [FileSys.free_map_release, Option.bind_eq_bind, Option.bind_eq_some_iff] at h
  rcases h with ⟨all, hall, u, hassert, b, hclear, file, hfile, ⟨r, t⟩, hwrite, h⟩
  obtain rfl : f = file := Option.some.inj (hf.symm.trans hfile)
  obtain rfl : t = s' := Option.some.inj h
  rcases bitmap_write_setFiles hwrite with ⟨hfiles, hmap, hset⟩
  refine ⟨hfiles, hmap, fun F hF => ?_⟩
  have hsame : (s.setFiles F).setMap b = (s.setMap b).setFiles F := rfl
  simp only [FileSys.free_map_release, FileSys.setFiles_free_map, hall, hassert, hclear, hsame,
    FileSys.setFiles_free_map_file, FileSys.setMap_free_map_file, hf, hset F hF, Option.bind_eq_bind,
    Option.bind_some]
  rfl

theorem inode_close_setFiles {f : Nat} (hf : s.free_map_file = some f)
    (h : s.inode_close (some p) = some s') :
    s'.files = s.files ∧ ∀ F : Store File, F.get f = s.files.get f →
      (s.setFiles F).inode_close (some p) = some (s'.setFiles F) := by
  simp only [FileSys.inode_close, Option.bind_eq_bind, Option.bind_eq_some_iff] at h
  rcases h with ⟨i, hi, h⟩
  split at h
  · rename_i hlast
    split at h
    · rename_i hremoved
      rcases Option.bind_eq_some_iff.1 h with ⟨t, hfirst, hsecond⟩
      rcases free_map_release_setFiles (s := s.setInodes (s.open_inodes.erase p)) (f := f) hf hfirst
        with ⟨hfiles₁, hmap₁, hset₁⟩
      rcases free_map_release_setFiles (f := f) (hmap₁.trans hf) hsecond with ⟨hfiles₂, _, hset₂⟩
      refine ⟨hfiles₂.trans hfiles₁, fun F hF => ?_⟩
      have hsame : (s.setFiles F).setInodes (s.open_inodes.erase p) =
          (s.setInodes (s.open_inodes.erase p)).setFiles F := rfl
      simp only [FileSys.inode_close, FileSys.setFiles_open_inodes, hi, if_pos hlast, if_pos hremoved,
        hsame, hset₁ F hF, hset₂ F (hF.trans (congrArg (Store.get · f) hfiles₁.symm)),
        Option.bind_eq_bind, Option.bind_some]
    · rename_i hkept
      obtain rfl := Option.some.inj h
      refine ⟨rfl, fun F _ => ?_⟩
      simp only [FileSys.inode_close, FileSys.setFiles_open_inodes, hi, if_pos hlast, if_neg hkept,
        Option.bind_eq_bind, Option.bind_some]
      rfl
  · rename_i hmore
    obtain rfl := Option.some.inj h
    refine ⟨rfl, fun F _ => ?_⟩
    simp only [FileSys.inode_close, FileSys.setFiles_open_inodes, hi, if_neg hmore,
      Option.bind_eq_bind, Option.bind_some]
    rfl

namespace OpenInv

/-- The files change, with their handles on inodes. -/
theorem set_files (h : OpenInv s held) {F : Store File}
    (hfile : ∀ f file, F.get f = some file →
      file.deny_write = false ∧ ∃ inode, s.open_inodes.get file.inode = some inode)
    (hheld : ∀ q, q ∈ held' → ∃ inode, s.open_inodes.get q = some inode)
    (hcount : ∀ q, (F.count fun f => decide (f.inode = q)) + held'.count q =
      (s.files.count fun f => decide (f.inode = q)) + held.count q) :
    OpenInv (s.setFiles F) held' where
  sector_one := h.sector_one
  data_eq := h.data_eq
  count q i hq := by
    have hsum := hcount q
    have hold := h.count q i hq
    rw [FileSys.setFiles_files]
    omega
  count_pos := h.count_pos
  file_open := hfile
  held_open := hheld
  no_deny := h.no_deny
  removed := h.removed

end OpenInv

namespace FsInv

theorem set_files (h : FsInv held s) {F : Store File} (hopen : OpenInv (s.setFiles F) held')
    (hmap : ∀ f file, s.free_map_file = some f → s.files.get f = some file →
      ∃ file', F.get f = some file' ∧ file'.inode = file.inode) : FsInv held' (s.setFiles F) := by
  refine h.of_open rfl rfl (fun i hi => Or.inr (Or.inr (Or.inr hi))) hopen ?_
  rcases h.map_file.opened with ⟨f, file, i, hf, hfile, hi, hzero⟩
  rcases hmap f file hf hfile with ⟨file', hfile', hinode⟩
  exact ⟨f, file', i, hf, hfile', hinode ▸ hi, hzero⟩

/-- A new file takes over the hold on an inode. -/
theorem alloc_file (h : FsInv held s) (hheld : p ∈ held) :
    FsInv (held.erase p) (s.setFiles (s.files.alloc ⟨p, 0, false⟩)) := by
  refine h.set_files (h.opened.set_files (fun f file hf => ?_) (fun q hq => ?_) fun q => ?_)
    fun f file _ hfile => ⟨file, Store.get_alloc_eq_some.2 (Or.inr hfile), rfl⟩
  · rcases Store.get_alloc_eq_some.1 hf with ⟨_, rfl⟩ | hf
    · exact ⟨rfl, h.opened.held_open p hheld⟩
    · exact h.opened.file_open f file hf
  · exact h.opened.held_open q (List.mem_of_mem_erase hq)
  · rw [Store.count_alloc]
    by_cases hq : q = p
    · subst hq
      have hpos := List.count_pos_iff.2 hheld
      simp only [decide_true, if_true, List.count_erase_self]
      omega
    · have hne : ¬ p = q := Ne.symm hq
      simp only [hne, decide_false, Bool.false_eq_true, if_false, List.count_erase_of_ne hq]
      omega

/-- The position of a file changes. -/
theorem set_file (h : FsInv held s) {f : Nat} {file file' : File} (hf : s.files.get f = some file)
    (hinode : file'.inode = file.inode) (hdeny : file'.deny_write = file.deny_write) :
    FsInv held (s.setFiles (s.files.set f file')) := by
  have hcases : ∀ g file₁, (s.files.set f file').get g = some file₁ →
      ∃ file₀, s.files.get g = some file₀ ∧ file₁.inode = file₀.inode ∧
        file₁.deny_write = file₀.deny_write := by
    intro g file₁ hg
    by_cases hgf : g = f
    · subst hgf
      obtain rfl : file' = file₁ := Option.some.inj ((Store.get_set_self hf).symm.trans hg)
      exact ⟨file, hf, hinode, hdeny⟩
    · rw [Store.get_set_of_ne hgf] at hg
      exact ⟨file₁, hg, rfl, rfl⟩
  refine h.set_files (h.opened.set_files (fun g file₁ hg => ?_) h.opened.held_open fun q => ?_)
    fun g file₀ _ hg => ?_
  · rcases hcases g file₁ hg with ⟨file₀, hg₀, hi, hd⟩
    rw [hi, hd]
    exact h.opened.file_open g file₀ hg₀
  · have hset := Store.count_set (a := file') (f := fun f => decide (f.inode = q)) hf
    simp only [hinode] at hset
    omega
  · by_cases hgf : g = f
    · subst hgf
      obtain rfl : file = file₀ := Option.some.inj (hf.symm.trans hg)
      exact ⟨file', Store.get_set_self hf, hinode⟩
    · exact ⟨file₀, (Store.get_set_of_ne hgf).trans hg, rfl⟩

/-- The hold of a file passes to the running code. -/
theorem erase_file (h : FsInv held s) {f : Nat} {file : File} (hf : s.files.get f = some file)
    (hmap : s.free_map_file ≠ some f) :
    FsInv (file.inode :: held) (s.setFiles (s.files.erase f)) := by
  refine h.set_files (h.opened.set_files (fun g file₁ hg => ?_) (fun q hq => ?_) fun q => ?_)
    fun g file₀ hg hfile => ?_
  · exact h.opened.file_open g file₁ (Store.get_erase_eq_some.1 hg).2
  · rcases List.mem_cons.1 hq with rfl | hq
    · exact (h.opened.file_open f file hf).2
    · exact h.opened.held_open q hq
  · have herase := Store.count_erase (f := fun f => decide (f.inode = q)) hf
    by_cases hq : q = file.inode
    · subst hq
      rw [List.count_cons_self]
      simp only [decide_true, if_true] at herase
      omega
    · have hne : ¬ file.inode = q := Ne.symm hq
      rw [List.count_cons_of_ne hne]
      simp only [hne, decide_false, Bool.false_eq_true, if_false] at herase
      omega
  · have hgf : g ≠ f := by
      rintro rfl
      exact hmap hg
    exact ⟨file₀, Store.get_erase_eq_some.2 ⟨hgf, hfile⟩, rfl⟩

/-! ## The functions on files -/

theorem malloc_eq {ok : Bool} (h : s.mem 0 = ok) : s.malloc = (ok, s.setMem s.mem.malloc.2) := by
  rw [← h]
  rfl

theorem file_open (h : FsInv held s) (hp : s.open_inodes.get p = some inode) (hheld : p ∈ held) :
    ∃ r s', s.file_open (some p) = some (r, s') ∧ FsInv (held.erase p) s' ∧
      ((s.mem 0 = true ∧ r = some s.files.next ∧
        s' = (s.setMem s.mem.malloc.2).setFiles (s.files.alloc ⟨p, 0, false⟩)) ∨
      (s.mem 0 = false ∧ r = none ∧ CloseSpec (s.setMem s.mem.malloc.2) p inode s')) := by
  cases hmem : s.mem 0 with
  | true =>
      refine ⟨_, _, ?_, (h.set_mem _).alloc_file hheld, Or.inl ⟨rfl, rfl, rfl⟩⟩
      simp only [FileSys.file_open, malloc_eq hmem]
      rfl
  | false =>
      rcases (h.set_mem s.mem.malloc.2).inode_close hp hheld with ⟨s', hs', hspec, hinv⟩
      refine ⟨none, s', ?_, hinv, Or.inr ⟨rfl, rfl, hspec⟩⟩
      simp only [FileSys.file_open, malloc_eq hmem, hs', Option.bind_eq_bind, Option.bind_some]
      rfl

theorem file_open_none (s : FileSys) :
    s.file_open none = some (none, s.setMem s.mem.malloc.2) := by
  cases hmem : s.mem 0 with
  | true | false =>
      simp only [FileSys.file_open, malloc_eq hmem, FileSys.inode_close, Option.bind_eq_bind,
        Option.bind_some]
      rfl

theorem dir_open (h : FsInv held s) (hp : s.open_inodes.get p = some inode) (hheld : p ∈ held) :
    ∃ r s', s.dir_open (some p) = some (r, s') ∧
      ((s.mem 0 = true ∧ r = some p ∧ s' = s.setMem s.mem.malloc.2 ∧ FsInv held s') ∨
      (s.mem 0 = false ∧ r = none ∧ CloseSpec (s.setMem s.mem.malloc.2) p inode s' ∧
        FsInv (held.erase p) s')) := by
  cases hmem : s.mem 0 with
  | true =>
      refine ⟨_, _, ?_, Or.inl ⟨rfl, rfl, rfl, h.set_mem _⟩⟩
      simp only [FileSys.dir_open, malloc_eq hmem]
  | false =>
      rcases (h.set_mem s.mem.malloc.2).inode_close hp hheld with ⟨s', hs', hspec, hinv⟩
      refine ⟨none, s', ?_, Or.inr ⟨rfl, rfl, hspec, hinv⟩⟩
      simp only [FileSys.dir_open, malloc_eq hmem, hs', Option.bind_eq_bind, Option.bind_some]
      rfl

theorem dir_open_none (s : FileSys) : s.dir_open none = some (none, s.setMem s.mem.malloc.2) := by
  cases hmem : s.mem 0 with
  | true | false =>
      simp only [FileSys.dir_open, malloc_eq hmem, FileSys.inode_close, Option.bind_eq_bind,
        Option.bind_some]
      rfl

theorem file_close (h : FsInv held s) {f : Nat} {file : File} (hf : s.files.get f = some file)
    (hmap : s.free_map_file ≠ some f) (hp : s.open_inodes.get file.inode = some inode) :
    ∃ s', s.file_close f = some s' ∧ CloseSpec (s.setFiles (s.files.erase f)) file.inode inode s' ∧
      FsInv held s' := by
  rcases (h.erase_file hf hmap).inode_close hp List.mem_cons_self with ⟨s', hs', hspec, hinv⟩
  rw [List.erase_cons_head] at hinv
  rcases h.map_file.opened with ⟨m, _, _, hm, _⟩
  have hmf : m ≠ f := by
    rintro rfl
    exact hmap hm
  rcases inode_close_setFiles (s := s.setFiles (s.files.erase f)) (f := m) hm hs' with
    ⟨hfiles, hset⟩
  have hback : s.inode_close (some file.inode) = some (s'.setFiles s.files) :=
    hset s.files (Store.get_erase_of_ne hmf).symm
  have hdone : (s'.setFiles s.files).setFiles (s.files.erase f) = s' := by
    have hself : s'.setFiles s'.files = s' := rfl
    rw [← hself, hfiles]
    rfl
  have hallow : s.file_allow_write f = some s := by
    simp only [FileSys.file_allow_write, hf, (h.opened.file_open f file hf).1, Bool.false_eq_true,
      if_false, Option.bind_eq_bind, Option.bind_some]
    rfl
  refine ⟨s', ?_, hspec, hinv⟩
  simp only [FileSys.file_close, hallow, hf, hback, FileSys.setFiles_files, Option.bind_eq_bind,
    Option.bind_some]
  exact congrArg some hdone

end FsInv

end Berk162
