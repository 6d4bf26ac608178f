import Berk162.Lib.Ranking
import Berk162.Threads.SchedRuns

/-!
# SchedFair — no ready thread starves

A section appends threads to the run queue, and a switch takes its first thread.  So the threads of
the run queue get the CPU in their order, and since a thread is made to yield at the latest with
its `TIME_SLICE`-th tick, one with `k` threads before it runs after at most `TIME_SLICE * (k + 1)`
ticks.
-/

namespace Berk162

variable {P X : Type} [DecidableEq P] {s s' : Sched P X} {p q : P} {freed : List P}

/-! ## One section -/

namespace Sched

/-- A switch takes the first thread of the run queue, if there is one. -/
theorem schedule_takes (hs : s.schedule = some (s', freed)) :
    s'.thread_ticks = 0 ∧
      (s.fifo_ready_list = s'.running_thread :: s'.fifo_ready_list ∨
        (s.fifo_ready_list = [] ∧ s'.fifo_ready_list = [])) := by
  have htail : ∀ (u : Sched P X) (prev : Option P), u.thread_switch_tail prev = some (s', freed) →
      s'.thread_ticks = 0 ∧ s'.running_thread = u.running_thread ∧
        s'.fifo_ready_list = u.fifo_ready_list := by
    intro u prev hu
    cases prev with
    | none =>
        simp only [thread_switch_tail, Option.some.injEq, Prod.mk.injEq] at hu
        rcases hu with ⟨rfl, _⟩
        exact ⟨rfl, rfl, rfl⟩
    | some p =>
        simp only [thread_switch_tail] at hu
        split at hu
        · split at hu
          · cases hu
          · simp only [Option.some.injEq, Prod.mk.injEq] at hu
            rcases hu with ⟨rfl, _⟩
            exact ⟨rfl, rfl, rfl⟩
        · simp only [Option.some.injEq, Prod.mk.injEq] at hu
          rcases hu with ⟨rfl, _⟩
          exact ⟨rfl, rfl, rfl⟩
  rcases hnext : s.next_thread_to_run with ⟨_ | next, s₁⟩
  · simp [schedule, hnext] at hs
  · have hfinal : s'.thread_ticks = 0 ∧ s'.running_thread = next ∧
        s'.fifo_ready_list = s₁.fifo_ready_list := by
      simp only [schedule, hnext] at hs
      split at hs
      · cases hs
      · split at hs
        · exact htail _ _ hs
        · rename_i hsame
          have hrun : s₁.running_thread = s.running_thread := by
            cases hready : s.fifo_ready_list with
            | nil =>
                simp only [next_thread_to_run, hready, Prod.mk.injEq] at hnext
                rw [← hnext.2]
            | cons r rs =>
                simp only [next_thread_to_run, hready, Prod.mk.injEq] at hnext
                rw [← hnext.2]
          rcases htail _ _ hs with ⟨hticks, hrun', hlist⟩
          exact ⟨hticks, hrun'.trans (hrun.trans (not_not.1 hsame)), hlist⟩
    rcases hfinal with ⟨hticks, hrun, hlist⟩
    refine ⟨hticks, ?_⟩
    rw [hrun, hlist]
    cases hready : s.fifo_ready_list with
    | nil =>
        simp only [next_thread_to_run, hready, Prod.mk.injEq] at hnext
        exact Or.inr ⟨rfl, by rw [← hnext.2, hready]⟩
    | cons r rs =>
        simp only [next_thread_to_run, hready, Prod.mk.injEq, Option.some.injEq] at hnext
        rcases hnext with ⟨rfl, rfl⟩
        exact Or.inl rfl

theorem thread_yield_takes (hs : s.thread_yield = some (s', freed)) :
    s'.thread_ticks = 0 ∧ ∃ back,
      s.fifo_ready_list ++ back = s'.running_thread :: s'.fifo_ready_list ∨
        s.fifo_ready_list ++ back = [] := by
  rcases schedule_takes hs with ⟨hticks, hlist⟩
  refine ⟨hticks, ?_⟩
  by_cases hidle : s.idle_thread ≠ some s.running_thread
  · refine ⟨[s.running_thread], ?_⟩
    simp only [if_pos hidle, setStatus, thread_enqueue] at hlist
    exact hlist.imp_right And.left
  · refine ⟨[], ?_⟩
    simp only [if_neg hidle, setStatus] at hlist
    rw [List.append_nil]
    exact hlist.imp_right And.left

end Sched

/-- The timer interrupt. -/
def SchedEvent.isTick : SchedEvent P X × List P → Bool
  | (.tick, _) => true
  | _ => false

variable [DecidableEq X] {e : SchedEvent P X}

/-- A section appends threads to the run queue.  Then it leaves the CPU to the thread that had it, and
a tick of these has not used up the time slice; or it takes the first thread of the run queue, if
there is one, and a new time slice starts. -/
theorem sched_section_takes (hs : sched_section s e = some (s', freed)) : ∃ back,
    (s'.fifo_ready_list = s.fifo_ready_list ++ back ∧
      s'.thread_ticks = s.thread_ticks + (if SchedEvent.isTick (e, freed) then 1 else 0) ∧
      (SchedEvent.isTick (e, freed) → s'.thread_ticks < TIME_SLICE)) ∨
    (s'.thread_ticks = 0 ∧
      (s.fifo_ready_list ++ back = s'.running_thread :: s'.fifo_ready_list ∨
        s.fifo_ready_list ++ back = [])) := by
  have hunblock : ∀ (u : Sched P X) (r : P), (u.thread_unblock r).map (fun s => (s, [])) =
      some (s', freed) → s'.fifo_ready_list = u.fifo_ready_list ++ [r] ∧
        s'.thread_ticks = u.thread_ticks := by
    intro u r hu
    simp only [Sched.thread_unblock] at hu
    split at hu
    · simp only [Option.map_some, Option.some.injEq, Prod.mk.injEq] at hu
      rcases hu with ⟨rfl, _⟩
      exact ⟨rfl, rfl⟩
    · cases hu
  have hschedule : ∀ u : Sched P X, u.fifo_ready_list = s.fifo_ready_list →
      u.schedule = some (s', freed) → s'.thread_ticks = 0 ∧
        (s.fifo_ready_list ++ [] = s'.running_thread :: s'.fifo_ready_list ∨
          s.fifo_ready_list ++ [] = []) := by
    intro u hlist hu
    rcases Sched.schedule_takes hu with ⟨hticks, htaken⟩
    rw [List.append_nil, ← hlist]
    exact ⟨hticks, htaken.imp_right And.left⟩
  cases e with
  | create p =>
      simp only [sched_section, Option.some.injEq, Prod.mk.injEq] at hs
      rcases hs with ⟨rfl, _⟩
      exact ⟨[], Or.inl ⟨(List.append_nil _).symm, rfl, fun h => absurd h Bool.false_ne_true⟩⟩
  | unblock p =>
      rcases hunblock s p hs with ⟨hlist, hticks⟩
      exact ⟨[p], Or.inl ⟨hlist, hticks, fun h => absurd h Bool.false_ne_true⟩⟩
  | block =>
      exact ⟨[], Or.inr (hschedule (s.setStatus s.running_thread (some .blocked)) rfl hs)⟩
  | yield =>
      rcases Sched.thread_yield_takes hs with ⟨hticks, back, htaken⟩
      exact ⟨back, Or.inr ⟨hticks, htaken⟩⟩
  | exit =>
      simp only [sched_section, Sched.thread_exit] at hs
      refine ⟨[], Or.inr (hschedule _ ?_ hs)⟩
      rfl
  | sema_down x =>
      simp only [sched_section, Sched.sema_down_pass] at hs
      split at hs
      · simp only [Option.some.injEq, Prod.mk.injEq] at hs
        rcases hs with ⟨rfl, _⟩
        exact ⟨[], Or.inl ⟨(List.append_nil _).symm, rfl, fun h => absurd h Bool.false_ne_true⟩⟩
      · rw [Sched.thread_block] at hs
        refine ⟨[], Or.inr (hschedule _ ?_ hs)⟩
        rfl
  | sema_up x =>
      simp only [sched_section, Sched.sema_up_call] at hs
      split at hs
      · simp only [Option.some.injEq, Prod.mk.injEq] at hs
        rcases hs with ⟨rfl, _⟩
        exact ⟨[], Or.inl ⟨(List.append_nil _).symm, rfl, fun h => absurd h Bool.false_ne_true⟩⟩
      · rcases hunblock _ _ hs with ⟨hlist, hticks⟩
        exact ⟨_, Or.inl ⟨hlist, hticks, fun h => absurd h Bool.false_ne_true⟩⟩
  | tick =>
      simp only [sched_section, Sched.thread_tick] at hs
      split at hs
      · rcases Sched.thread_yield_takes hs with ⟨hticks, back, htaken⟩
        exact ⟨back, Or.inr ⟨hticks, htaken⟩⟩
      · rename_i hslice
        simp only [Option.some.injEq, Prod.mk.injEq] at hs
        rcases hs with ⟨rfl, _⟩
        exact ⟨[], Or.inl ⟨(List.append_nil _).symm, rfl, fun _ => Nat.lt_of_not_le hslice⟩⟩
  | idle =>
      simp only [sched_section, Option.some.injEq, Prod.mk.injEq] at hs
      rcases hs with ⟨rfl, _⟩
      exact ⟨[], Or.inl ⟨(List.append_nil _).symm, rfl, fun h => absurd h Bool.false_ne_true⟩⟩

/-! ## Runs -/

omit [DecidableEq P] in
/-- A switch that appends `back` and takes the first thread keeps the order of those left. -/
theorem sublist_taken {ready back rest : List P} {r : P} (hlist : ready ++ back = r :: rest)
    (hsub : [p, q].Sublist ready) : r = p ∨ [p, q].Sublist rest := by
  have hall : [p, q].Sublist (r :: rest) := hlist ▸ hsub.trans (List.sublist_append_left ready back)
  cases hall with
  | cons _ h =>
      exact Or.inr h
  | cons_cons _ h =>
      exact Or.inl rfl

/-- The ticks that a ready thread may still have to wait for: a time slice for each thread before it,
and what is left of the time slice of the thread that runs. -/
def Sched.ticks_before (s : Sched P X) (p : P) : Nat :=
  TIME_SLICE * s.fifo_ready_list.idxOf p + max 1 (TIME_SLICE - s.thread_ticks)

omit [DecidableEq X] in
theorem Sched.ticks_before_pos (s : Sched P X) (p : P) : 0 < s.ticks_before p :=
  Nat.lt_of_lt_of_le Nat.one_pos ((le_max_left _ _).trans (Nat.le_add_left _ _))

/-- In a section a waiting thread gets the CPU, or it goes on waiting, for one tick less if the section
was a tick. -/
theorem sched_section_ticks_before (hs : sched_section s e = some (s', freed))
    (hp : p ∈ s.fifo_ready_list) :
    s'.running_thread = p ∨ (p ∈ s'.fifo_ready_list ∧
      s'.ticks_before p + (if SchedEvent.isTick (e, freed) then 1 else 0) ≤ s.ticks_before p) := by
  rcases sched_section_takes hs with ⟨back, ⟨hlist, hticks, hslice⟩ | ⟨hticks, hlist⟩⟩
  · right
    have hidx : s'.fifo_ready_list.idxOf p = s.fifo_ready_list.idxOf p := by
      rw [hlist, List.idxOf_append_of_mem hp]
    refine ⟨hlist ▸ List.mem_append_left back hp, ?_⟩
    simp only [Sched.ticks_before, hidx, hticks] at hslice ⊢
    split
    · rename_i htick
      have hlt := hslice htick
      rw [if_pos htick] at hlt
      omega
    · omega
  · rcases hlist with hlist | hnil
    · by_cases hrun : s'.running_thread = p
      · exact Or.inl hrun
      · right
        have hmem : p ∈ s'.running_thread :: s'.fifo_ready_list :=
          hlist ▸ List.mem_append_left back hp
        have hidx : s.fifo_ready_list.idxOf p = s'.fifo_ready_list.idxOf p + 1 := by
          calc s.fifo_ready_list.idxOf p
              = (s.fifo_ready_list ++ back).idxOf p := (List.idxOf_append_of_mem hp).symm
            _ = (s'.running_thread :: s'.fifo_ready_list).idxOf p := by rw [hlist]
            _ = s'.fifo_ready_list.idxOf p + 1 := List.idxOf_cons_ne _ hrun
        refine ⟨(List.mem_cons.1 hmem).resolve_left (Ne.symm hrun), ?_⟩
        simp only [Sched.ticks_before, hidx, hticks, TIME_SLICE]
        split <;> omega
    · rw [List.append_eq_nil_iff] at hnil
      rw [hnil.1] at hp
      cases hp

/-- No ready thread starves: a thread with `k` threads before it in the run queue has run by the
`TIME_SLICE * (k + 1)`-th timer tick, whatever the threads do. -/
theorem sched_no_starvation {ls : List (SchedEvent P X × List P)} {k : Nat}
    (hk : s.fifo_ready_list[k]? = some p) (h : (schedSystem P X).Exec s ls s')
    (hticks : TIME_SLICE * (k + 1) ≤ ls.countP SchedEvent.isTick) :
    ∃ ls₁ u ls₂, ls = ls₁ ++ ls₂ ∧ (schedSystem P X).Exec s ls₁ u ∧ u.running_thread = p ∧
      (schedSystem P X).Exec u ls₂ s' := by
  have hmem : p ∈ s.fifo_ready_list := List.mem_of_getElem? hk
  have hidx : s.fifo_ready_list.idxOf p ≤ k := by
    rcases List.getElem?_eq_some_iff.1 hk with ⟨_, hget⟩
    by_contra hlt
    have hne := List.not_of_lt_findIdx (Nat.lt_of_not_le hlt)
    simp [hget] at hne
  refine h.through_of_rank (fun u => u.ticks_before p) (W := fun u => p ∈ u.fifo_ready_list)
    (I := fun _ => True) (fun _ _ _ hi _ => hi)
    (fun u l v _ hw hst => sched_section_ticks_before hst.2 hw)
    (fun u _ => u.ticks_before_pos p) trivial hmem ?_
  calc s.ticks_before p ≤ TIME_SLICE * k + TIME_SLICE := by
        simp only [Sched.ticks_before, TIME_SLICE]
        omega
    _ = TIME_SLICE * (k + 1) := (Nat.mul_succ TIME_SLICE k).symm
    _ ≤ ls.countP SchedEvent.isTick := hticks

/-- A thread that runs on, with one other thread ready: its fourth tick hands the CPU over. -/
theorem sched_no_starvation_two : ∃ (s s' : Sched (Fin 2) Unit)
    (ls : List (SchedEvent (Fin 2) Unit × List (Fin 2))),
    s.fifo_ready_list = [1] ∧ s.running_thread = 0 ∧ (schedSystem (Fin 2) Unit).Exec s ls s' ∧
      ∃ ls₁ u ls₂, ls = ls₁ ++ ls₂ ∧ (schedSystem (Fin 2) Unit).Exec s ls₁ u ∧
        u.running_thread = 1 ∧ (schedSystem (Fin 2) Unit).Exec u ls₂ s' := by
  let s : Sched (Fin 2) Unit :=
    ⟨Function.update (fun _ => some .ready) 0 (some .running), [1], [0, 1], none, 0, 0, 0,
      fun _ => ⟨0, []⟩⟩
  have h1 := (System.Exec.nil s).snoc (sched_step (l := (.tick, [])) trivial rfl)
  have h2 := h1.snoc (sched_step (l := (.tick, [])) trivial rfl)
  have h3 := h2.snoc (sched_step (l := (.tick, [])) trivial rfl)
  have h4 := h3.snoc (sched_step (l := (.tick, [])) trivial rfl)
  exact ⟨s, _, _, rfl, rfl, h4, sched_no_starvation (k := 0) rfl h4 (by decide)⟩

/-- The run queue is first in, first out: of two threads in it, the one that stands before the other
runs first. -/
theorem sched_runs_in_order {ls : List (SchedEvent P X × List P)}
    (h0 : (schedSystem P X).Reachable s) (hpq : [p, q].Sublist s.fifo_ready_list)
    (h : (schedSystem P X).Exec s ls s') (hq : s'.running_thread = q) :
    ∃ ls₁ u ls₂, ls = ls₁ ++ ls₂ ∧ (schedSystem P X).Exec s ls₁ u ∧ u.running_thread = p ∧
      (schedSystem P X).Exec u ls₂ s' := by
  have hrun := h.through_or_waits (fun _ => 0) (G := fun u => u.running_thread = p)
    (W := fun u => [p, q].Sublist u.fifo_ready_list) (q := fun _ => false)
    (I := fun _ => True) (fun _ _ _ hi _ => hi) (fun u l v _ hw hst => ?_) trivial hpq
  · rcases hrun with hthrough | ⟨hwait, _⟩
    · exact hthrough
    · -- a thread of the run queue does not run
      have hinv := sched_reachable_inv (h0.exec h)
      have hready := hinv.ready_status q (hwait.subset (by simp))
      rw [← hq, hinv.running] at hready
      cases hready
  · rcases sched_section_takes hst.2 with ⟨back, ⟨hlist, _⟩ | ⟨_, hlist⟩⟩
    · right
      exact ⟨hlist ▸ hw.trans (List.sublist_append_left _ back), Nat.le_refl 0⟩
    · rcases hlist with hlist | hnil
      · exact (sublist_taken hlist hw).imp_right fun h => ⟨h, Nat.le_refl 0⟩
      · rw [List.append_eq_nil_iff] at hnil
        rw [hnil.1] at hw
        cases hw

/-- The initial thread starts two threads and yields twice. -/
theorem sched_runs_in_order_three : ∃ (s s' : Sched (Fin 3) Unit)
    (ls : List (SchedEvent (Fin 3) Unit × List (Fin 3))),
    (schedSystem (Fin 3) Unit).Reachable s ∧ s.fifo_ready_list = [1, 2] ∧ s'.running_thread = 2 ∧
      ∃ ls₁ u ls₂, ls = ls₁ ++ ls₂ ∧ (schedSystem (Fin 3) Unit).Exec s ls₁ u ∧
        u.running_thread = 1 ∧ (schedSystem (Fin 3) Unit).Exec u ls₂ s' := by
  let s₀ : Sched (Fin 3) Unit :=
    ⟨Function.update (fun _ => none) 0 (some .running), [], [0], none, 0, 0, 0, fun _ => ⟨0, []⟩⟩
  have h0 : (schedSystem (Fin 3) Unit).init s₀ := ⟨rfl, rfl, rfl, rfl, fun _ => rfl, rfl⟩
  have hwait : ∀ p : Fin 3, p ∉ ([] : List (Fin 3)) := fun p => List.not_mem_nil
  have h1 := (System.Exec.nil s₀).snoc (sched_step (l := (.create 1, [])) rfl rfl)
  have h2 := h1.snoc (sched_step (l := (.unblock 1, [])) ⟨rfl, fun _ => hwait 1⟩ rfl)
  have h3 := h2.snoc (sched_step (l := (.create 2, [])) rfl rfl)
  have h4 := h3.snoc (sched_step (l := (.unblock 2, [])) ⟨rfl, fun _ => hwait 2⟩ rfl)
  have hs := (System.Reachable.init h0).exec h4
  have hhere : ∀ {ls t}, (schedSystem (Fin 3) Unit).Exec s₀ ls t →
      (schedSystem (Fin 3) Unit).Exec t [] t := fun {_ t} _ => System.Exec.nil t
  have h5 := (hhere h4).snoc (sched_step (l := (.yield, [])) trivial rfl)
  have h6 := h5.snoc (sched_step (l := (.yield, [])) trivial rfl)
  exact ⟨_, _, _, hs, rfl, rfl, sched_runs_in_order hs (List.Sublist.refl [1, 2]) h6 rfl⟩

end Berk162
