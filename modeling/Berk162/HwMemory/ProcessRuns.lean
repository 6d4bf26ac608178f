import Berk162.HwMemory.Process

/-!
# ProcessRuns — processes from their start to their end

A process goes on by changing its memory and by system calls that return.  It ends within a system
call, or by an exception of its own, and then `thread_exit` gives back its memory, but not its file.
-/

namespace Berk162

namespace HwMemory

open Kern

variable {k k₀ t : Kernel} {esp i : Nat} {e : DirEntry} {r : Request}

/-- Within the system call the process accesses a byte of its buffer that it does not have. -/
def FaultsWithin (k : Kernel) (esp : Nat) : Prop := ∃ r, k.request esp = some r ∧ Faults k r

theorem Fetched.faults (h : Fetched k t) : Faults t r ↔ Faults k r := by
  have hcan : ∀ w a, Can w t a ↔ Can w k a := fun w a => Can.congr h.accessed.page
  have hlacks : ∀ w buffer size, t.Lacks w buffer size ↔ k.Lacks w buffer size := by
    intro w buffer size
    unfold Kernel.Lacks Kernel.CopiesNull Kernel.in_open_file
    simp only [hcan, h.accessed.open_file, h.accessed.fs]
  cases r with
  | sys_write fd buffer size | sys_read fd buffer size => simp only [Faults, hcan, hlacks]
  | sys_exit status | sys_open filename | sys_close fd | unimplemented => exact Iff.rfl

/-- A system call returns or ends the process. -/
theorem after_call (h : Idle k) (esp : Nat) (e : DirEntry) : After (syscall_handler esp e) k
    (fun _ t => Served k t ∧ ¬ FaultsWithin k esp) (Ended k (FaultsWithin k esp)) := by
  refine after_syscall_handler (fun hnone t ht => ?_) fun r hr t ht => ?_
  · refine ht.ended h ?_
    rintro ⟨r, hr, -⟩
    exact absurd (hnone.symm.trans hr) (Option.some_ne_none r).symm
  · have hfaults : FaultsWithin k esp ↔ Faults t r := by
      rw [ht.faults]
      constructor
      · rintro ⟨r', hr', hfaults⟩
        obtain rfl := Option.some.inj (hr.symm.trans hr')
        exact hfaults
      · exact fun hfaults => ⟨r, hr, hfaults⟩
    have hfetched := h.moved ht.accessed.moved ht.accessed.locks ht.accessed.blocks
    rw [hfaults]
    refine (serve_spec hfetched.idle e r).mono (fun _ u hu => ⟨hfetched.trans hu.1, hu.2⟩)
      fun st u hu => ?_
    cases st with
    | panic => exact hu
    | exited status => exact ⟨hu.1.trans (congrArg FileSys.open_inodes ht.accessed.fs), hu.2⟩

/-! ## Runs -/

/-- What a process does and goes on. -/
inductive Action
  /-- It changes its memory. -/
  | user (memory : Memory)
  | call (esp : Nat) (e : DirEntry)

/-- A process from its start on.  The file system may have had any use before. -/
def process : System Kernel Action where
  init k := fsRuns.Reachable k.fs ∧ k.locks = [] ∧ k.console_lock_depth = 0 ∧ k.blocks = 0 ∧
    k.open_file = none
  step k
    | .user memory, t =>
        (∀ a, PHYS_BASE ≤ a → memory a = k.memory a) ∧ t = { k with memory := memory }
    | .call esp e, t => ∃ eax, syscall_handler esp e k = .ok eax t

theorem process_start (h : process.init k) : Idle k := by
  obtain ⟨hfs, hlocks, hdepth, hblocks, hnone⟩ := h
  exact ⟨fsRuns_between hfs, hlocks, hdepth, hblocks,
    fun f hf => absurd (hnone.symm.trans hf) (Option.some_ne_none f).symm⟩

theorem process_step {l : Action} (h : Idle k) (hstep : process.step k l t) : Served k t := by
  cases l with
  | user memory =>
      obtain ⟨-, rfl⟩ := hstep
      exact ⟨⟨h.fs, h.locks, h.console_lock_depth, h.blocks, h.open_file⟩, fun _ => rfl⟩
  | call esp e =>
      obtain ⟨eax, hcall⟩ := hstep
      exact ((after_of_ok hcall).1 (after_call h esp e)).1

theorem process_idle (h : process.Reachable k) : Idle k :=
  h.invariant (fun _ => process_start) fun _ _ _ hidle hstep => (process_step hidle hstep).idle

/-! ## A process that opens a file -/

/-- A process that starts with one page, the last one below `PHYS_BASE`, and with the bytes `stack` at
its end. -/
def started (fs : FileSys) (stack : Bytes) : Kernel where
  memory a := stack.getD (a - 0xbffffff0) 0
  page p := if p = pg_no 0xbffffff0 then some true else none
  locks := []
  console_lock_depth := 0
  blocks := 0
  fs := fs
  open_file := none
  touched := []

theorem init_started {s : FileSys} (h : fsRuns.Reachable s) (stack : Bytes) :
    process.init (started s stack) := ⟨h, rfl, rfl, rfl, rfl⟩

/-- The file system has no part in a request. -/
theorem request_started (s s' : FileSys) (stack : Bytes) (esp : Nat) :
    (started s stack).request esp = (started s' stack).request esp := rfl

/-- A call that opens a file that there is. -/
theorem call_opens (h : Idle k) (hnone : k.open_file = none) {a : Nat} {name : CString}
    (hrequest : k.request esp = some (.sys_open a)) (hname : UserString k a name) (ha : a ≠ NULL)
    (hlt : a + name.chars.length < PHYS_BASE) (hs : k.fs.mem.Ample) (hhas : k.fs.HasName name)
    (e : DirEntry) : ∃ eax t, syscall_handler esp e k = .ok eax t ∧ t.open_file ≠ none := by
  refine After.returns (after_syscall_handler (fun hno => ?_) fun r hr t ht => ?_)
  · exact absurd (hrequest.symm.trans hno) (Option.some_ne_none _)
  · obtain rfl := Option.some.inj (hrequest.symm.trans hr)
    have haccessed := ht.accessed
    have hfetched := h.moved haccessed.moved haccessed.locks haccessed.blocks
    rw [← haccessed.fs] at hs hhas
    exact after_serve_open hfetched.idle (haccessed.open_file.trans hnone)
      (hname.looked (haccessed.looked ht.memory)) ha hlt hs hhas e

/-- The stack for a call of `open` with the string "a", which is on the stack too. -/
def open_stack : Bytes := [6, 0, 0, 0, 0xf8, 0xff, 0xff, 0xbf, 97, 0]

/-- A process that has opened a file with this name. -/
theorem open_run : ∃ s e k, process.init (started s open_stack) ∧
    process.Exec (started s open_stack) [.call 0xbffffff0 e] k ∧ k.open_file ≠ none := by
  let name : CString := ⟨[97], by decide⟩
  obtain ⟨s, hreach, hs, hhas⟩ := @blank_disk_create name (by decide) (by decide)
  have hinit := init_started hreach open_stack
  have hrequest : (started s open_stack).request 0xbffffff0 = some (.sys_open 0xbffffff8) := by
    rw [request_started s (boot blank_disk unlimited ⟨64, fun _ => 0⟩)]
    decide +kernel
  have hname : UserString (started s open_stack) 0xbffffff8 name := by
    refine ⟨fun j hj _ hnone => ?_, fun j hj => ?_⟩
    · obtain rfl | rfl : j = 0 ∨ j = 1 := Nat.le_one_iff_eq_zero_or_eq_one.1 hj
      · cases hnone
      · cases hnone
    · obtain rfl | rfl : j = 0 ∨ j = 1 := Nat.le_one_iff_eq_zero_or_eq_one.1 hj
      · rfl
      · rfl
  obtain ⟨eax, k, hcall, hopen⟩ := call_opens (process_start hinit) rfl hrequest hname (by decide)
    (by decide) hs hhas (DirEntry.ofBytes fun _ => 0)
  exact ⟨s, _, k, hinit, System.Exec.single ⟨eax, hcall⟩, hopen⟩

/-! ## What a process holds when it ends -/

/-- If the kernel ends the process within the system call, the thread has no lock, and no block that
was allocated for the call. -/
def EndsClean (k : Kernel) (esp : Nat) (e : DirEntry) : Prop :=
  ∀ status t, syscall_handler esp e k = .error (.exited status) t → t.locks = [] ∧ t.blocks = 0

theorem Idle.ends_clean_iff (h : Idle k) (esp : Nat) (e : DirEntry) :
    EndsClean k esp e ↔ ¬ FaultsWithin k esp := by
  have hcall := after_call h esp e
  unfold EndsClean
  cases hrun : syscall_handler esp e k with
  | ok eax t =>
      exact iff_of_true (fun _ _ hend => nomatch hend) ((after_of_ok hrun).1 hcall).2
  | error st t =>
      rw [after_of_error hrun] at hcall
      cases st with
      | panic => exact iff_of_true (fun _ _ hend => nomatch hend) hcall
      | exited status =>
          rw [← hcall.2]
          refine ⟨fun hclean => hclean status t rfl, fun hclean status' t' hend => ?_⟩
          cases hend
          exact hclean

theorem process_ends_clean_iff (h : process.Reachable k) (esp : Nat) (e : DirEntry) :
    EndsClean k esp e ↔ ¬ FaultsWithin k esp :=
  (process_idle h).ends_clean_iff esp e

/-- The process that has opened a file makes a call with a stack that is none of its own. -/
theorem process_ends_clean_iff_started : ∃ s e k,
    process.Exec (started s open_stack) [.call 0xbffffff0 e] k ∧ k.open_file ≠ none ∧
      EndsClean k PHYS_BASE e := by
  obtain ⟨s, e, k, hinit, hrun, hopen⟩ := open_run
  have hreach : process.Reachable k := (System.Reachable.init hinit).exec hrun
  refine ⟨s, e, k, hrun, hopen, (process_ends_clean_iff hreach PHYS_BASE e).2 ?_⟩
  rintro ⟨r, hr, -⟩
  have hargs : ¬ Args k PHYS_BASE 4 := fun hargs => absurd hargs.1 (by decide)
  rw [Kernel.request, if_pos hargs] at hr
  cases hr

/-- One byte is written to the console, from a page that is not mapped. -/
theorem putbuf_keeps_console_lock :
    ¬ ∀ k esp e, process.Reachable k → EndsClean k esp e := by
  intro hall
  obtain ⟨s, heq, -⟩ := blank_disk_format
  have hinit := init_started (System.Reachable.init ⟨_, _, _, heq⟩)
    [9, 0, 0, 0, 1, 0, 0, 0, 0, 0, 0, 1, 1, 0, 0, 0]
  have hrequest : (started s [9, 0, 0, 0, 1, 0, 0, 0, 0, 0, 0, 1, 1, 0, 0, 0]).request 0xbffffff0 =
      some (.sys_write 1 0x1000000 1) := by
    rw [request_started s (boot blank_disk unlimited ⟨64, fun _ => 0⟩)]
    decide +kernel
  have hcannot : ¬ Can false (started s [9, 0, 0, 0, 1, 0, 0, 0, 0, 0, 0, 1, 1, 0, 0, 0])
      (0x1000000 + 0) := fun hcan => hcan (by decide) rfl
  have hclean := hall _ 0xbffffff0 (DirEntry.ofBytes fun _ => 0) (System.Reachable.init hinit)
  exact ((process_start hinit).ends_clean_iff _ _).1 hclean
    ⟨_, hrequest, by decide, by decide, Or.inl ⟨rfl, 0, Nat.zero_lt_one, hcannot⟩⟩

/-! ## What a process leaves open -/

/-- `thread_exit` with `process_exit`, which gives back the memory of the process. -/
def thread_exit (k : Kernel) : Kernel := { k with page := fun _ => none }

/-- The state in which a process ends, within a system call or by an exception of its own. -/
inductive Ends (k : Kernel) : Kernel → Prop
  | call {esp : Nat} {e : DirEntry} {status : Int} {t : Kernel} :
      syscall_handler esp e k = .error (.exited status) t → Ends k (thread_exit t)
  | exception : Ends k (thread_exit k)

/-- The inode in sector `i` is open, and its open count is `n`. -/
def OpenCnt (s : FileSys) (i : Nat) (n : Int) : Prop :=
  ∃ p inode, s.open_inodes.get p = some inode ∧ inode.sector = i ∧ inode.open_cnt = n

/-- The open counts are those from before. -/
def SameCounts (s s' : FileSys) : Prop := ∀ i n, OpenCnt s' i n ↔ OpenCnt s i n

theorem open_cnt_iff {s : FileSys} (h : FsInv [] s) {n : Int} :
    OpenCnt s i n ↔ n = opens s i ∧ 0 < n := by
  have hcount : ∀ p inode, s.open_inodes.get p = some inode →
      inode.open_cnt = opens s inode.sector ∧ 0 < inode.open_cnt := by
    intro p inode hp
    refine ⟨?_, h.opened.count_pos p inode hp⟩
    rw [h.opened.count p inode hp, List.count_nil, Int.natCast_zero, Int.add_zero, opens]
    refine congrArg Nat.cast (Store.count_congr fun f file hf => ?_)
    rw [decide_eq_decide]
    constructor
    · rintro rfl
      rw [file_sector, hp, Option.map_some]
    · intro hsector
      obtain ⟨inode', hp', heq⟩ := Option.map_eq_some_iff.1 hsector
      exact h.opened.sector_one _ p inode' inode hp' hp heq
  constructor
  · rintro ⟨p, inode, hp, rfl, rfl⟩
    exact hcount p inode hp
  · rintro ⟨rfl, hpos⟩
    by_contra hnone
    have hzero : opens s i = 0 := by
      refine Store.count_eq_zero fun f file hf => decide_eq_false fun hsector => hnone ?_
      obtain ⟨inode, hp, rfl⟩ := Option.map_eq_some_iff.1 hsector
      exact ⟨_, inode, hp, rfl, (hcount _ inode hp).1⟩
    rw [hzero] at hpos
    exact absurd hpos (Int.lt_irrefl 0)

/-- Only the file of the process makes a difference. -/
theorem exec_opens {ls : List Action} (h : process.init k₀) (hrun : process.Exec k₀ ls k) (i : Nat) :
    opens k.fs i = opens k₀.fs i + if k.open_sector = some i then 1 else 0 := by
  have hstart : k₀.open_sector = none := by
    rw [Kernel.open_sector, h.2.2.2.2, Option.bind_none, Option.bind_none]
  have hinv : Idle k ∧ Tracks k₀ k := by
    refine hrun.invariant (I := fun k => Idle k ∧ Tracks k₀ k) (fun s l t hs hstep => ?_)
      ⟨process_start h, fun _ => rfl⟩
    have hserved := process_step hs.1 hstep
    exact ⟨hserved.idle, (Served.mk hs.1 hs.2 |>.trans hserved).tracks⟩
  have htracks := hinv.2 i
  rw [hstart] at htracks
  exact htracks

theorem Ends.open_inodes (hidle : Idle k) (h : Ends k t) : t.fs.open_inodes = k.fs.open_inodes := by
  cases h with
  | @call esp e status u hend =>
      have hcall := after_call hidle esp e
      rw [after_of_error hend] at hcall
      exact hcall.1
  | exception => rfl

theorem Ends.open_cnt_iff (hidle : Idle k) (h : Ends k t) {n : Int} :
    OpenCnt t.fs i n ↔ OpenCnt k.fs i n := by
  rw [OpenCnt, OpenCnt, h.open_inodes hidle]

/-- The file that the process has is open once more than before. -/
theorem Ends.more_open {ls : List Action} (h : process.init k₀) (hrun : process.Exec k₀ ls k)
    (hend : Ends k t) (hopen : k.open_file ≠ none) : ¬ SameCounts k₀.fs t.fs := by
  intro hsame
  have hidle := process_idle ((System.Reachable.init h).exec hrun)
  obtain ⟨f, hf⟩ := Option.ne_none_iff_exists'.1 hopen
  obtain ⟨file, inode, hhandle⟩ := hidle.handle hf
  have hmore := exec_opens h hrun inode.sector
  rw [open_sector_eq hf hhandle, if_pos rfl] at hmore
  have hcnt : OpenCnt k.fs inode.sector (opens k.fs inode.sector) :=
    (HwMemory.open_cnt_iff hidle.fs.inv).2 ⟨rfl, by omega⟩
  have hbefore := (HwMemory.open_cnt_iff (process_start h).fs.inv).1
    ((hsame _ _).1 ((hend.open_cnt_iff hidle).2 hcnt))
  omega

theorem process_leaves_counts_iff {ls : List Action} (h : process.init k₀)
    (hrun : process.Exec k₀ ls k) (hend : Ends k t) :
    SameCounts k₀.fs t.fs ↔ k.open_file = none := by
  have hidle := process_idle ((System.Reachable.init h).exec hrun)
  refine ⟨fun hsame => ?_, fun hnone i n => ?_⟩
  · by_contra hopen
    exact hend.more_open h hrun hopen hsame
  · have hsector : k.open_sector = none := by
      rw [Kernel.open_sector, hnone, Option.bind_none, Option.bind_none]
    have hsame := exec_opens h hrun i
    rw [hsector] at hsame
    rw [hend.open_cnt_iff hidle, open_cnt_iff hidle.fs.inv, open_cnt_iff (process_start h).fs.inv,
      hsame]
    rfl

/-- The process that has opened a file ends by an exception. -/
theorem process_leaves_counts_iff_started : ∃ s e k,
    process.Exec (started s open_stack) [.call 0xbffffff0 e] k ∧
      ¬ SameCounts s (thread_exit k).fs := by
  obtain ⟨s, e, k, hinit, hrun, hopen⟩ := open_run
  exact ⟨s, e, k, hrun,
    fun hsame => hopen ((process_leaves_counts_iff hinit hrun Ends.exception).1 hsame)⟩

/-- A process opens a file with the name "a", and ends by an exception. -/
theorem exception_leaves_file_open :
    ¬ ∀ k₀ ls k t, process.init k₀ → process.Exec k₀ ls k → Ends k t → SameCounts k₀.fs t.fs := by
  intro hsame
  obtain ⟨s, e, k, hinit, hrun, hopen⟩ := open_run
  exact Ends.more_open hinit hrun Ends.exception hopen (hsame _ _ _ _ hinit hrun Ends.exception)

end HwMemory

end Berk162
