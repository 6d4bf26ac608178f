import Berk162.Filesys.FileSys
import Berk162.Lib.Transition

/-!
# DenyWrite — handles that deny writes to their inode

The count of those that deny writes to an inode is in the inode, while the flag that says whether a
handle is one of them is in the handle.  Here any handles of any inodes are opened, reopened,
closed, written through and made to deny or to allow writes, in any order.

A reference to an open inode belongs to a handle or to other code, which may give it to `file_open`;
`held` lists the references of the other code.  Whatever else the file system does between two
calls, it leaves the open inodes and the handles alone.
-/

namespace Berk162

/-- The number of handles of the inode at `p`. -/
def handles (files : Store File) (p : Nat) : Nat := files.count fun f => decide (f.inode = p)

/-- How many of them deny writes. -/
def denied (files : Store File) (p : Nat) : Nat :=
  files.count fun f => decide (f.inode = p) && f.deny_write

theorem denied_le_handles (files : Store File) (p : Nat) : denied files p ≤ handles files p :=
  Store.count_mono fun _ hf => (Bool.and_eq_true_iff.1 hf).1

section
variable {files : Store File} {f : Nat} {file file' : File}

/-- A handle of an inode stays one of it. -/
theorem handles_set (hf : files.get f = some file) (hinode : file'.inode = file.inode) (q : Nat) :
    handles (files.set f file') q = handles files q := by
  have hcount := @Store.count_set _ files f file' file (fun f => decide (f.inode = q)) hf
  rw [hinode] at hcount
  exact Nat.add_right_cancel hcount

theorem denied_set (hf : files.get f = some file) (hinode : file'.inode = file.inode) (q : Nat) :
    denied (files.set f file') q + (if decide (file.inode = q) && file.deny_write then 1 else 0) =
      denied files q + if decide (file.inode = q) && file'.deny_write then 1 else 0 := by
  have hcount := @Store.count_set _ files f file' file
    (fun f => decide (f.inode = q) && f.deny_write) hf
  rw [hinode] at hcount
  exact hcount

end

/-! ## Counting references -/

/-- Every reference is counted where it leads to, and so is every handle that denies writes. -/
structure Counted (inodes : Store Inode) (files : Store File) (held : List Nat) : Prop where
  open_cnt : ∀ p i, inodes.get p = some i →
    i.open_cnt = (handles files p : Nat) + (held.count p : Nat)
  deny_cnt : ∀ p i, inodes.get p = some i → i.deny_write_cnt = (denied files p : Nat)
  handle_inode : ∀ f file, files.get f = some file → ∃ i, inodes.get file.inode = some i
  held_inode : ∀ p, p ∈ held → ∃ i, inodes.get p = some i

namespace Counted

variable {inodes : Store Inode} {files files' : Store File} {held held' : List Nat} {p f : Nat}
  {i j : Inode} {file file' : File}

/-- The references and the flags change only for the inode at `p`, and its counts are set right. -/
theorem set_inode (h : Counted inodes files held) (hp : inodes.get p = some i)
    (hopen : j.open_cnt = (handles files' p : Nat) + (held'.count p : Nat))
    (hdeny : j.deny_write_cnt = (denied files' p : Nat))
    (hrest : ∀ q, q ≠ p → handles files' q = handles files q ∧ denied files' q = denied files q ∧
      held'.count q = held.count q)
    (hfile : ∀ f file, files'.get f = some file → ∃ i, inodes.get file.inode = some i) :
    Counted (inodes.set p j) files' held' := by
  have hget : ∀ q, (∃ i, inodes.get q = some i) → ∃ i, (inodes.set p j).get q = some i := by
    rintro q ⟨k, hk⟩
    by_cases hqp : q = p
    · subst hqp
      exact ⟨j, Store.get_set_self hp⟩
    · exact ⟨k, (Store.get_set_of_ne hqp).trans hk⟩
  refine ⟨fun q k hq => ?_, fun q k hq => ?_, fun g file hg => hget _ (hfile g file hg),
    fun q hq => ?_⟩
  · by_cases hqp : q = p
    · subst hqp
      rw [Store.get_set_self hp] at hq
      exact Option.some.inj hq ▸ hopen
    · rw [Store.get_set_of_ne hqp] at hq
      rw [(hrest q hqp).1, (hrest q hqp).2.2]
      exact h.open_cnt q k hq
  · by_cases hqp : q = p
    · subst hqp
      rw [Store.get_set_self hp] at hq
      exact Option.some.inj hq ▸ hdeny
    · rw [Store.get_set_of_ne hqp] at hq
      rw [(hrest q hqp).2.1]
      exact h.deny_cnt q k hq
  · by_cases hqp : q = p
    · exact hget q ⟨i, hqp ▸ hp⟩
    · have hmem : q ∈ held := by
        rw [← List.count_pos_iff, ← (hrest q hqp).2.2]
        exact List.count_pos_iff.2 hq
      exact hget q (h.held_inode q hmem)

/-- References pass from handles to other code, or the other way. -/
theorem pass (h : Counted inodes files held)
    (hopen : ∀ q, handles files' q + held'.count q = handles files q + held.count q)
    (hdeny : ∀ q, denied files' q = denied files q)
    (hfile : ∀ f file, files'.get f = some file → ∃ i, inodes.get file.inode = some i)
    (hheld : ∀ q, q ∈ held' → ∃ i, inodes.get q = some i) : Counted inodes files' held' where
  open_cnt q i hq := by
    have hold := h.open_cnt q i hq
    have hsum := hopen q
    omega
  deny_cnt q i hq := by
    rw [hdeny q]
    exact h.deny_cnt q i hq
  handle_inode := hfile
  held_inode := hheld

theorem empty : Counted Store.empty Store.empty [] where
  open_cnt _ i hp := absurd hp.symm (Option.some_ne_none i)
  deny_cnt _ i hp := absurd hp.symm (Option.some_ne_none i)
  handle_inode _ file hf := absurd hf.symm (Option.some_ne_none file)
  held_inode _ hp := absurd hp List.not_mem_nil

/-- One more reference. -/
theorem reopen (h : Counted inodes files held) (hp : inodes.get p = some i) :
    Counted (inodes.set p { i with open_cnt := i.open_cnt + 1 }) files (p :: held) := by
  refine h.set_inode hp ?_ (h.deny_cnt p i hp) (fun q hq => ⟨rfl, rfl, ?_⟩) h.handle_inode
  · have hold := h.open_cnt p i hp
    simp only [List.count_cons_self]
    omega
  · rw [List.count_cons_of_ne (Ne.symm hq)]

/-- An inode that was not open. -/
theorem alloc_inode (h : Counted inodes files held) (sector : Nat) (data : InodeDisk) :
    Counted (inodes.alloc ⟨sector, 1, false, 0, data⟩) files (inodes.next :: held) := by
  have hget : ∀ q, (∃ i, inodes.get q = some i) →
      q ≠ inodes.next ∧ ∃ i, (inodes.alloc ⟨sector, 1, false, 0, data⟩).get q = some i := by
    rintro q ⟨i, hi⟩
    have hne : q ≠ inodes.next := Nat.ne_of_lt (Store.get_lt hi)
    exact ⟨hne, i, (Store.get_alloc_of_ne hne).trans hi⟩
  -- nothing leads to the address of the new inode yet
  have hzero : handles files inodes.next = 0 := by
    refine Store.count_eq_zero fun f file hf => decide_eq_false fun heq => ?_
    exact (hget _ (h.handle_inode f file hf)).1 heq
  have hdenied : denied files inodes.next = 0 :=
    Nat.eq_zero_of_le_zero (hzero ▸ denied_le_handles files inodes.next)
  have hcount : held.count inodes.next = 0 :=
    List.count_eq_zero.2 fun hmem => (hget _ (h.held_inode _ hmem)).1 rfl
  refine ⟨fun q i hq => ?_, fun q i hq => ?_, fun f file hf => (hget _ (h.handle_inode f file hf)).2,
    fun q hq => ?_⟩
  · rcases Store.get_alloc_eq_some.1 hq with ⟨rfl, rfl⟩ | hq
    · simp [hzero, hcount]
    · rw [List.count_cons_of_ne (Ne.symm (hget q ⟨i, hq⟩).1)]
      exact h.open_cnt q i hq
  · rcases Store.get_alloc_eq_some.1 hq with ⟨rfl, rfl⟩ | hq
    · simp [hdenied]
    · exact h.deny_cnt q i hq
  · rcases List.mem_cons.1 hq with rfl | hq
    · exact ⟨_, Store.get_alloc_self⟩
    · exact (hget q (h.held_inode q hq)).2

/-- A reference is given to a new handle. -/
theorem alloc_file (h : Counted inodes files held) (hp : p ∈ held) :
    Counted inodes (files.alloc ⟨p, 0, false⟩) (held.erase p) := by
  refine h.pass (fun q => ?_) (fun q => ?_) (fun f file hf => ?_)
    fun q hq => h.held_inode q (List.mem_of_mem_erase hq)
  · rw [handles, Store.count_alloc, ← handles]
    by_cases hqp : q = p
    · subst hqp
      have hpos := List.count_pos_iff.2 hp
      simp only [decide_true, if_true, List.count_erase_self]
      omega
    · simp [Ne.symm hqp, List.count_erase_of_ne hqp]
  · rw [denied, Store.count_alloc, ← denied]
    simp
  · rcases Store.get_alloc_eq_some.1 hf with ⟨_, rfl⟩ | hf
    · exact h.held_inode p hp
    · exact h.handle_inode f file hf

/-- A handle that does not deny writes goes and leaves its reference. -/
theorem erase_file (h : Counted inodes files held) (hf : files.get f = some file)
    (hdeny : file.deny_write = false) : Counted inodes (files.erase f) (file.inode :: held) := by
  refine h.pass (fun q => ?_) (fun q => ?_) (fun g file' hg => ?_) fun q hq => ?_
  · have hcount := @Store.count_erase _ files f file (fun f => decide (f.inode = q)) hf
    rw [handles, handles, ← hcount]
    by_cases hq : file.inode = q
    · simp only [hq, decide_true, if_true, List.count_cons_self]
      omega
    · simp only [hq, decide_false, Bool.false_eq_true, if_false, List.count_cons_of_ne hq]
      omega
  · have hcount := @Store.count_erase _ files f file
      (fun f => decide (f.inode = q) && f.deny_write) hf
    simpa [denied, hdeny] using hcount
  · exact h.handle_inode g file' (Store.get_erase_eq_some.1 hg).2
  · rcases List.mem_cons.1 hq with rfl | hq
    · exact h.handle_inode f file hf
    · exact h.held_inode q hq

/-- A reference is given back, and the inode with it if it was the last one. -/
theorem close (h : Counted inodes files held) (hp : inodes.get p = some i) (hheld : p ∈ held) :
    Counted (if i.open_cnt - 1 = 0 then inodes.erase p
      else inodes.set p { i with open_cnt := i.open_cnt - 1 }) files (held.erase p) := by
  have hopen := h.open_cnt p i hp
  have hpos := List.count_pos_iff.2 hheld
  split
  · -- no reference is left, so that nothing leads to `p`
    rename_i hlast
    have hzero : handles files p = 0 := by omega
    have hgone : p ∉ held.erase p := by
      rw [← List.count_eq_zero, List.count_erase_self]
      omega
    have hhandle : ∀ f file, files.get f = some file → file.inode ≠ p := by
      intro f file hf heq
      have hmem := Store.count_pos (f := fun f => decide (f.inode = p)) hf (by simp [heq])
      rw [← handles, hzero] at hmem
      exact Nat.lt_irrefl 0 hmem
    refine ⟨fun q k hq => ?_, fun q k hq => ?_, fun f file hf => ?_, fun q hq => ?_⟩
    · rcases Store.get_erase_eq_some.1 hq with ⟨hqp, hq⟩
      rw [List.count_erase_of_ne hqp]
      exact h.open_cnt q k hq
    · exact h.deny_cnt q k (Store.get_erase_eq_some.1 hq).2
    · rcases h.handle_inode f file hf with ⟨k, hk⟩
      exact ⟨k, (Store.get_erase_of_ne (hhandle f file hf)).trans hk⟩
    · have hqp : q ≠ p := fun heq => hgone (heq ▸ hq)
      rcases h.held_inode q (List.mem_of_mem_erase hq) with ⟨k, hk⟩
      exact ⟨k, (Store.get_erase_of_ne hqp).trans hk⟩
  · refine h.set_inode hp ?_ (h.deny_cnt p i hp) (fun q hq => ⟨rfl, rfl, ?_⟩) h.handle_inode
    · simp only [List.count_erase_self]
      omega
    · rw [List.count_erase_of_ne hq]

/-- A handle is replaced by one of the same inode, and the inode's count by that of its handles. -/
theorem set_file (h : Counted inodes files held) (hf : files.get f = some file)
    (hp : inodes.get file.inode = some i) (hinode : file'.inode = file.inode)
    (hcnt : j.open_cnt = i.open_cnt)
    (hdeny : j.deny_write_cnt + (if file.deny_write then 1 else 0) =
      i.deny_write_cnt + if file'.deny_write then 1 else 0) :
    Counted (inodes.set file.inode j) (files.set f file') held := by
  refine h.set_inode hp ?_ ?_ (fun q hq => ⟨handles_set hf hinode q, ?_, rfl⟩) fun g file'' hg => ?_
  · rw [hcnt, handles_set hf hinode]
    exact h.open_cnt _ i hp
  · have hold := h.deny_cnt _ i hp
    have hnew := denied_set hf hinode file.inode
    cases hflag : file.deny_write <;> cases hflag' : file'.deny_write <;>
      simp [hflag, hflag'] at hdeny hnew <;> omega
  · have hnew := denied_set hf hinode q
    simpa [Ne.symm hq] using hnew
  · by_cases hgf : g = f
    · subst hgf
      rw [Store.get_set_self hf] at hg
      rw [← Option.some.inj hg, hinode]
      exact ⟨i, hp⟩
    · rw [Store.get_set_of_ne hgf] at hg
      exact h.handle_inode g file'' hg

/-- A handle is at another position. -/
theorem set_pos (h : Counted inodes files held) (hf : files.get f = some file) (pos : Nat) :
    Counted inodes (files.set f { file with pos := pos }) held := by
  refine h.pass (fun q => ?_) (fun q => ?_) (fun g file' hg => ?_) h.held_inode
  · have hsame := @handles_set files f file { file with pos := pos } hf rfl q
    omega
  · exact Nat.add_right_cancel (@denied_set files f file { file with pos := pos } hf rfl q)
  · by_cases hgf : g = f
    · subst hgf
      rw [Store.get_set_self hf] at hg
      exact Option.some.inj hg ▸ h.handle_inode g file hf
    · rw [Store.get_set_of_ne hgf] at hg
      exact h.handle_inode g file' hg

end Counted

/-! ## The functions -/

section
variable {s s' : FileSys} {p f : Nat} {i : Inode} {file : File} {held : List Nat}

theorem inode_write_at_refs {buffer : Bytes} {ofs n : Nat}
    (h : s.inode_write_at p buffer ofs = some (n, s')) :
    s'.open_inodes = s.open_inodes ∧ s'.files = s.files := by
  simp only [FileSys.inode_write_at, Option.bind_eq_bind, Option.bind_eq_some_iff] at h
  rcases h with ⟨i, _, h⟩
  split at h
  · cases h
    exact ⟨rfl, rfl⟩
  · rcases Option.bind_eq_some_iff.1 h with ⟨⟨m, dev, mem⟩, _, hret⟩
    cases hret
    exact ⟨rfl, rfl⟩

theorem free_map_release_refs {sector cnt : Nat} (h : s.free_map_release sector cnt = some s') :
    s'.open_inodes = s.open_inodes ∧ s'.files = s.files := by
  simp only [FileSys.free_map_release, FileSys.bitmap_write, FileSys.file_write_at,
    Option.bind_eq_bind, Option.bind_eq_some_iff] at h
  rcases h with ⟨_, _, _, _, b, _, _, _, ⟨r, t⟩, ⟨⟨n, u⟩, ⟨_, _, hwrite⟩, hret⟩, h⟩
  rcases Prod.mk.inj (Option.some.inj hret) with ⟨rfl, rfl⟩
  obtain rfl : u = s' := Option.some.inj h
  exact inode_write_at_refs (s := s.setMap b) hwrite

/-- `inode_close` takes one off the count, and takes the inode off the list with the last one. -/
theorem inode_close_refs (hp : s.open_inodes.get p = some i)
    (h : s.inode_close (some p) = some s') :
    s'.files = s.files ∧ s'.open_inodes =
      if i.open_cnt - 1 = 0 then s.open_inodes.erase p
      else s.open_inodes.set p { i with open_cnt := i.open_cnt - 1 } := by
  simp only [FileSys.inode_close, hp, Option.bind_eq_bind, Option.bind_some] at h
  by_cases hlast : i.open_cnt - 1 = 0
  · rw [if_pos hlast] at h ⊢
    split at h
    · rcases Option.bind_eq_some_iff.1 h with ⟨t, hfirst, hsecond⟩
      have hrefs := free_map_release_refs hfirst
      have hrefs' := free_map_release_refs hsecond
      exact ⟨hrefs'.2.trans hrefs.2, hrefs'.1.trans hrefs.1⟩
    · cases h
      exact ⟨rfl, rfl⟩
  · rw [if_neg hlast] at h ⊢
    cases h
    exact ⟨rfl, rfl⟩

theorem Counted.inode_close (h : Counted s.open_inodes s.files held) (hp : p ∈ held)
    (hclose : s.inode_close (some p) = some s') :
    Counted s'.open_inodes s'.files (held.erase p) := by
  rcases h.held_inode p hp with ⟨i, hi⟩
  rcases inode_close_refs hi hclose with ⟨hfiles, hinodes⟩
  rw [hfiles, hinodes]
  exact h.close hi hp

theorem Counted.inode_reopen (h : Counted s.open_inodes s.files held)
    (hopen : s.inode_reopen p = some s') : Counted s'.open_inodes s'.files (p :: held) := by
  simp only [FileSys.inode_reopen, Option.bind_eq_bind, Option.bind_eq_some_iff] at hopen
  rcases hopen with ⟨i, hi, hopen⟩
  cases hopen
  exact h.reopen hi

theorem Counted.inode_open {sector : Nat} {r : Option Nat} (h : Counted s.open_inodes s.files held)
    (hopen : s.inode_open sector = some (r, s')) :
    Counted s'.open_inodes s'.files (r.toList ++ held) := by
  rw [FileSys.inode_open] at hopen
  split at hopen
  · rcases Option.bind_eq_some_iff.1 hopen with ⟨t, hreopen, hret⟩
    cases hret
    exact h.inode_reopen hreopen
  · cases hok : s.mem.malloc.1 with
    | false =>
        simp only [FileSys.malloc, hok] at hopen
        cases hopen
        exact h
    | true =>
        simp only [FileSys.malloc, hok] at hopen
        rcases Option.bind_eq_some_iff.1 hopen with ⟨data, _, hret⟩
        cases hret
        exact h.alloc_inode sector _

/-- `file_open` takes over the reference it is given, whether or not it can make a handle. -/
theorem Counted.file_open {r : Option Nat} (h : Counted s.open_inodes s.files held) (hp : p ∈ held)
    (hopen : s.file_open (some p) = some (r, s')) :
    Counted s'.open_inodes s'.files (held.erase p) := by
  cases hok : s.mem.malloc.1 with
  | true =>
      simp only [FileSys.file_open, FileSys.malloc, hok] at hopen
      cases hopen
      exact h.alloc_file hp
  | false =>
      simp only [FileSys.file_open, FileSys.malloc, hok] at hopen
      rcases Option.bind_eq_some_iff.1 hopen with ⟨t, hclose, hret⟩
      cases hret
      exact Counted.inode_close (s := s.setMem s.mem.malloc.2) h hp hclose

theorem Counted.file_reopen {r : Option Nat} (h : Counted s.open_inodes s.files held)
    (hreopen : s.file_reopen f = some (r, s')) : Counted s'.open_inodes s'.files held := by
  simp only [FileSys.file_reopen, Option.bind_eq_bind, Option.bind_eq_some_iff] at hreopen
  rcases hreopen with ⟨file, _, t, hinode, hopen⟩
  have hdone := (h.inode_reopen hinode).file_open List.mem_cons_self hopen
  rwa [List.erase_cons_head] at hdone

/-- `file_deny_write` fails no assertion: a handle that does not deny writes is one more than those
that do. -/
theorem Counted.file_deny_write (h : Counted s.open_inodes s.files held)
    (hf : s.files.get f = some file) :
    ∃ s', s.file_deny_write f = some s' ∧ Counted s'.open_inodes s'.files held ∧
      s'.files.get f = some { file with deny_write := true } := by
  rcases h.handle_inode f file hf with ⟨i, hi⟩
  cases hflag : file.deny_write with
  | true =>
      refine ⟨s, ?_, h, ?_⟩
      · simp only [FileSys.file_deny_write, hf, Option.bind_eq_bind, Option.bind_some, hflag]
        rfl
      · rw [hf, ← hflag]
  | false =>
      have hdeny := h.deny_cnt _ i hi
      have hopen := h.open_cnt _ i hi
      have hless : denied s.files file.inode + 1 ≤ handles s.files file.inode := by
        have hnew := @denied_set s.files f file { file with deny_write := true } hf rfl file.inode
        have hall := denied_le_handles (s.files.set f { file with deny_write := true }) file.inode
        rw [@handles_set s.files f file { file with deny_write := true } hf rfl] at hall
        simp only [hflag, decide_true, Bool.and_false, Bool.and_true, Bool.false_eq_true, if_false,
          if_true, Nat.add_zero] at hnew
        omega
      have hassert : i.deny_write_cnt + 1 ≤ i.open_cnt := by omega
      refine ⟨(s.setFiles (s.files.set f { file with deny_write := true })).setInodes
        (s.open_inodes.set file.inode { i with deny_write_cnt := i.deny_write_cnt + 1 }), ?_,
        h.set_file hf hi rfl rfl ?_, ?_⟩
      · simp only [FileSys.file_deny_write, hf, Option.bind_eq_bind, Option.bind_some, hflag,
          Bool.not_false, if_true, FileSys.inode_deny_write, FileSys.setFiles_open_inodes, hi,
          ASSERT_pos hassert]
        rfl
      · simp [hflag]
      · exact Store.get_set_self hf

/-- `file_allow_write` fails no assertion: a handle that denies writes is one of those counted. -/
theorem Counted.file_allow_write (h : Counted s.open_inodes s.files held)
    (hf : s.files.get f = some file) :
    ∃ s', s.file_allow_write f = some s' ∧ Counted s'.open_inodes s'.files held ∧
      s'.files.get f = some { file with deny_write := false } := by
  rcases h.handle_inode f file hf with ⟨i, hi⟩
  cases hflag : file.deny_write with
  | false =>
      refine ⟨s, ?_, h, ?_⟩
      · simp only [FileSys.file_allow_write, hf, Option.bind_eq_bind, Option.bind_some, hflag]
        rfl
      · rw [hf, ← hflag]
  | true =>
      have hdeny := h.deny_cnt _ i hi
      have hopen := h.open_cnt _ i hi
      have hpos : 0 < denied s.files file.inode := Store.count_pos hf (by simp [hflag])
      have hall := denied_le_handles s.files file.inode
      have hassert : i.deny_write_cnt > 0 := by omega
      have hassert' : i.deny_write_cnt ≤ i.open_cnt := by omega
      refine ⟨(s.setFiles (s.files.set f { file with deny_write := false })).setInodes
        (s.open_inodes.set file.inode { i with deny_write_cnt := i.deny_write_cnt - 1 }), ?_,
        h.set_file hf hi rfl rfl ?_, ?_⟩
      · simp only [FileSys.file_allow_write, hf, Option.bind_eq_bind, Option.bind_some, hflag,
          if_true, FileSys.inode_allow_write, FileSys.setFiles_open_inodes, hi, ASSERT_pos hassert,
          ASSERT_pos hassert']
        rfl
      · simp [hflag]
      · exact Store.get_set_self hf

theorem Counted.file_close (h : Counted s.open_inodes s.files held)
    (hf : s.files.get f = some file) (hclose : s.file_close f = some s') :
    Counted s'.open_inodes s'.files held := by
  rcases h.file_allow_write hf with ⟨t, hallow, ht, hft⟩
  simp only [FileSys.file_close, hallow, hft, Option.bind_eq_bind, Option.bind_some,
    Option.bind_eq_some_iff] at hclose
  rcases hclose with ⟨u, hinode, hret⟩
  obtain rfl := Option.some.inj hret
  rcases ht.handle_inode f _ hft with ⟨i, hi⟩
  rcases inode_close_refs hi hinode with ⟨hfiles, hinodes⟩
  have hdone := (ht.erase_file hft rfl).close hi List.mem_cons_self
  rw [List.erase_cons_head] at hdone
  rw [FileSys.setFiles_open_inodes, FileSys.setFiles_files, hfiles, hinodes]
  exact hdone

/-- `file_write` changes data only if no handle of the inode denies it. -/
theorem Counted.file_write {buffer : Bytes} {n : Nat} (h : Counted s.open_inodes s.files held)
    (hf : s.files.get f = some file) (hwrite : s.file_write f buffer = some (n, s')) :
    Counted s'.open_inodes s'.files held ∧
      (s'.fs_device ≠ s.fs_device → denied s.files file.inode = 0) := by
  simp only [FileSys.file_write, hf, Option.bind_eq_bind, Option.bind_some,
    Option.bind_eq_some_iff] at hwrite
  rcases hwrite with ⟨⟨m, t⟩, hinode, hret⟩
  rcases Prod.mk.inj (Option.some.inj hret) with ⟨rfl, rfl⟩
  rcases inode_write_at_refs hinode with ⟨hinodes, hfiles⟩
  constructor
  · rw [FileSys.setFiles_open_inodes, FileSys.setFiles_files, hinodes, hfiles]
    exact h.set_pos hf _
  · intro hdev
    rcases h.handle_inode f file hf with ⟨i, hi⟩
    by_contra hdenied
    -- a write that is denied leaves the device alone
    refine hdev ?_
    have hne : i.deny_write_cnt ≠ 0 := by
      rw [h.deny_cnt _ i hi]
      exact_mod_cast hdenied
    simp only [FileSys.inode_write_at, hi, Option.bind_eq_bind, Option.bind_some, ne_eq, hne,
      not_false_eq_true, if_true] at hinode
    obtain rfl := (Prod.mk.inj (Option.some.inj hinode)).2
    rfl

end

/-! ## Runs -/

/-- The file system and the references to open inodes that no handle has. -/
structure Sharing where
  fs : FileSys
  held : List Nat

inductive FileCall
  | inode_open (sector : Nat)
  | inode_reopen (inode : Nat)
  | inode_close (inode : Nat)
  | inode_remove (inode : Nat)
  | file_open (inode : Nat)
  | file_reopen (file : Nat)
  | file_close (file : Nat)
  | file_deny_write (file : Nat)
  | file_allow_write (file : Nat)
  | file_write (file : Nat) (buffer : Bytes)
  /-- Anything else, with the state after it. -/
  | other (fs : FileSys)

namespace FileCall

/-- The caller has the reference or the handle that it passes. -/
def Allowed (x : Sharing) : FileCall → Prop
  | .inode_open _ => True
  | .inode_reopen inode | .inode_close inode | .inode_remove inode | .file_open inode =>
      inode ∈ x.held
  | .file_reopen file | .file_close file | .file_deny_write file | .file_allow_write file
  | .file_write file _ => ∃ f, x.fs.files.get file = some f
  | .other fs => fs.open_inodes = x.fs.open_inodes ∧ fs.files = x.fs.files

def run (x : Sharing) : FileCall → Option Sharing
  | .inode_open sector => do
      let (inode, s) ← x.fs.inode_open sector
      return ⟨s, inode.toList ++ x.held⟩
  | .inode_reopen inode => do
      let s ← x.fs.inode_reopen inode
      return ⟨s, inode :: x.held⟩
  | .inode_close inode => do
      let s ← x.fs.inode_close (some inode)
      return ⟨s, x.held.erase inode⟩
  | .inode_remove inode => do
      let s ← x.fs.inode_remove inode
      return ⟨s, x.held⟩
  | .file_open inode => do
      let (_, s) ← x.fs.file_open (some inode)
      return ⟨s, x.held.erase inode⟩
  | .file_reopen file => do
      let (_, s) ← x.fs.file_reopen file
      return ⟨s, x.held⟩
  | .file_close file => do
      let s ← x.fs.file_close file
      return ⟨s, x.held⟩
  | .file_deny_write file => do
      let s ← x.fs.file_deny_write file
      return ⟨s, x.held⟩
  | .file_allow_write file => do
      let s ← x.fs.file_allow_write file
      return ⟨s, x.held⟩
  | .file_write file buffer => do
      let (_, s) ← x.fs.file_write file buffer
      return ⟨s, x.held⟩
  | .other fs => some ⟨fs, x.held⟩

end FileCall

/-- The runs from a system with no inode open. -/
def sharing : System Sharing FileCall where
  init x := x.fs.open_inodes = Store.empty ∧ x.fs.files = Store.empty ∧ x.held = []
  step x c y := c.Allowed x ∧ c.run x = some y

/-- References and flags are counted, whatever call was made. -/
theorem Counted.call {x y : Sharing} {c : FileCall}
    (h : Counted x.fs.open_inodes x.fs.files x.held) (hallowed : c.Allowed x)
    (hrun : c.run x = some y) : Counted y.fs.open_inodes y.fs.files y.held := by
  cases c with
  | inode_open sector =>
      rcases Option.bind_eq_some_iff.1 hrun with ⟨⟨r, s⟩, hcall, hret⟩
      cases hret
      exact h.inode_open hcall
  | inode_reopen inode =>
      rcases Option.bind_eq_some_iff.1 hrun with ⟨s, hcall, hret⟩
      cases hret
      exact h.inode_reopen hcall
  | inode_close inode =>
      rcases Option.bind_eq_some_iff.1 hrun with ⟨s, hcall, hret⟩
      cases hret
      exact h.inode_close hallowed hcall
  | inode_remove inode =>
      rcases Option.bind_eq_some_iff.1 hrun with ⟨s, hcall, hret⟩
      cases hret
      rcases Option.bind_eq_some_iff.1 hcall with ⟨i, hi, hset⟩
      cases hset
      -- the counts of the inode are left alone
      exact h.set_inode hi (h.open_cnt inode i hi) (h.deny_cnt inode i hi)
        (fun _ _ => ⟨rfl, rfl, rfl⟩) h.handle_inode
  | file_open inode =>
      rcases Option.bind_eq_some_iff.1 hrun with ⟨⟨r, s⟩, hcall, hret⟩
      cases hret
      exact h.file_open hallowed hcall
  | file_reopen file =>
      rcases Option.bind_eq_some_iff.1 hrun with ⟨⟨r, s⟩, hcall, hret⟩
      cases hret
      exact h.file_reopen hcall
  | file_close file =>
      rcases Option.bind_eq_some_iff.1 hrun with ⟨s, hcall, hret⟩
      cases hret
      rcases hallowed with ⟨f, hf⟩
      exact h.file_close hf hcall
  | file_deny_write file =>
      rcases hallowed with ⟨f, hf⟩
      rcases h.file_deny_write hf with ⟨s, hcall, hdone, _⟩
      simp only [FileCall.run, hcall] at hrun
      cases hrun
      exact hdone
  | file_allow_write file =>
      rcases hallowed with ⟨f, hf⟩
      rcases h.file_allow_write hf with ⟨s, hcall, hdone, _⟩
      simp only [FileCall.run, hcall] at hrun
      cases hrun
      exact hdone
  | file_write file buffer =>
      rcases Option.bind_eq_some_iff.1 hrun with ⟨⟨n, s⟩, hcall, hret⟩
      cases hret
      rcases hallowed with ⟨f, hf⟩
      exact (h.file_write hf hcall).1
  | other fs =>
      cases hrun
      rw [hallowed.1, hallowed.2]
      exact h

theorem sharing_counted {x : Sharing} (h : sharing.Reachable x) :
    Counted x.fs.open_inodes x.fs.files x.held := by
  induction h with
  | init hx =>
      rcases hx with ⟨hinodes, hfiles, hheld⟩
      rw [hinodes, hfiles, hheld]
      exact Counted.empty
  | step _ hstep ih =>
      exact ih.call hstep.1 hstep.2

/-- The counts of an inode agree with the flags of its handles, the functions on the flags fail no
assertion, and a write that changes the device is to an inode of which no handle denies it. -/
structure DenyGood (s : FileSys) : Prop where
  deny_cnt : ∀ p i, s.open_inodes.get p = some i →
    i.deny_write_cnt = (denied s.files p : Nat) ∧ i.deny_write_cnt ≤ i.open_cnt
  deny : ∀ f file, s.files.get f = some file → ∃ s', s.file_deny_write f = some s'
  allow : ∀ f file, s.files.get f = some file → ∃ s', s.file_allow_write f = some s'
  write : ∀ f file buffer n s', s.files.get f = some file →
    s.file_write f buffer = some (n, s') → s'.fs_device ≠ s.fs_device →
      denied s.files file.inode = 0

theorem deny_runs_good {x : Sharing} (h : sharing.Reachable x) : DenyGood x.fs := by
  have hcounted := sharing_counted h
  refine ⟨fun p i hp => ⟨hcounted.deny_cnt p i hp, ?_⟩, fun f file hf => ?_, fun f file hf => ?_,
    fun f file buffer n s' hf hwrite => (hcounted.file_write hf hwrite).2⟩
  · have hopen := hcounted.open_cnt p i hp
    have hdeny := hcounted.deny_cnt p i hp
    have hle := denied_le_handles x.fs.files p
    omega
  · rcases hcounted.file_deny_write hf with ⟨s', hcall, _⟩
    exact ⟨s', hcall⟩
  · rcases hcounted.file_allow_write hf with ⟨s', hcall, _⟩
    exact ⟨s', hcall⟩

/-- A file system with a blank disk and nothing open. -/
def nothing_open : FileSys where
  fs_device := ⟨[], .filesys, 64, sixty_four_lt, fun _ => Sector.ofBytes fun _ => 0⟩
  mem := fun _ => true
  open_inodes := Store.empty
  files := Store.empty
  free_map := ⟨64, fun _ => 0⟩
  free_map_file := none

/-- Two handles of one inode, of which the second denies writes. -/
theorem deny_runs_good_two : ∃ x : Sharing, denied x.fs.files 0 = 1 ∧ DenyGood x.fs := by
  have h0 : sharing.Reachable ⟨nothing_open, []⟩ := System.Reachable.init ⟨rfl, rfl, rfl⟩
  have h1 := h0.step (l := FileCall.inode_open 5) ⟨trivial, rfl⟩
  have h2 := h1.step (l := FileCall.file_open 0) ⟨List.mem_singleton.2 rfl, rfl⟩
  have h3 := h2.step (l := FileCall.file_reopen 0) ⟨⟨_, rfl⟩, rfl⟩
  have h4 := h3.step (l := FileCall.file_deny_write 1) ⟨⟨_, rfl⟩, rfl⟩
  exact ⟨_, rfl, deny_runs_good h4⟩

end Berk162
