import Berk162.Threads.Sched
import Mathlib.Data.List.Nodup

/-!
# SchedRuns — the scheduler's lists and statuses over whole runs

`SchedLists` is what the run queue, the lists of the semaphores and the list of all threads have to do
with the statuses; it holds also while the CPU is between two threads.  `SchedInv` adds that
exactly one thread runs.
-/

namespace Berk162

variable {P X : Type}

structure SchedLists (s : Sched P X) : Prop where
  ready_status : ∀ p, p ∈ s.fifo_ready_list → s.status p = some .ready
  ready_mem : ∀ p, s.status p = some .ready → s.idle_thread ≠ some p → p ∈ s.fifo_ready_list
  ready_nodup : s.fifo_ready_list.Nodup
  waiting : ∀ x p, p ∈ (s.sema x).waiters →
    s.status p = some .blocked ∧ s.idle_thread ≠ some p
  waiters_nodup : ∀ x, (s.sema x).waiters.Nodup
  waiters_one : ∀ x y p, p ∈ (s.sema x).waiters → p ∈ (s.sema y).waiters → x = y
  all_nodup : s.all_list.Nodup
  all_mem : ∀ p, p ∈ s.all_list ↔ ∃ st, s.status p = some st ∧ st ≠ .dying
  idle_live : ∀ p, s.idle_thread = some p → p ∈ s.all_list
  initial_kept : s.status s.initial_thread ≠ none

structure SchedInv (s : Sched P X) : Prop extends SchedLists s where
  running : s.status s.running_thread = some .running
  only : ∀ p, s.status p = some .running → p = s.running_thread
  dead : ∀ p, s.status p = some .dying → p = s.initial_thread

/-- The thread on the CPU has given up its status; it may be dying. -/
structure Descheduled (s : Sched P X) : Prop extends SchedLists s where
  none_running : ∀ p, s.status p ≠ some .running
  dead : ∀ p, s.status p = some .dying → p = s.initial_thread ∨ p = s.running_thread
  live : s.status s.running_thread ≠ none

variable {s s' : Sched P X} {p : P} {freed : List P}

/-! ## The switch -/

/-- The chosen thread goes on; the thread left behind is not looked at yet. -/
def Sched.resumed [DecidableEq P] (s : Sched P X) (next : P) : Sched P X :=
  { ({ s with running_thread := next } : Sched P X).setStatus next (some .running) with
    thread_ticks := 0 }

/-- The page of a dying thread is freed. -/
theorem SchedLists.free [DecidableEq P] (h : SchedLists s) (hp : s.status p = some .dying)
    (hinit : p ≠ s.initial_thread) : SchedLists (s.setStatus p none) := by
  have hready : p ∉ s.fifo_ready_list := by
    intro hmem
    have hst := h.ready_status p hmem
    rw [hp] at hst
    cases hst
  have hwait : ∀ x, p ∉ (s.sema x).waiters := by
    intro x hmem
    have hst := (h.waiting x p hmem).1
    rw [hp] at hst
    cases hst
  have hall : p ∉ s.all_list := by
    rw [h.all_mem, hp]
    simp
  constructor
  · intro q hq
    have hqp : q ≠ p := fun heq => hready (heq ▸ hq)
    simpa [Sched.setStatus, hqp] using h.ready_status q hq
  · intro q hq hidle
    have hqp : q ≠ p := by
      rintro rfl
      simp [Sched.setStatus] at hq
    exact h.ready_mem q (by simpa [Sched.setStatus, hqp] using hq) hidle
  · exact h.ready_nodup
  · intro x q hq
    have hqp : q ≠ p := fun heq => hwait x (heq ▸ hq)
    simpa [Sched.setStatus, hqp] using h.waiting x q hq
  · exact h.waiters_nodup
  · exact h.waiters_one
  · exact h.all_nodup
  · intro q
    by_cases hqp : q = p
    · subst hqp
      simp [Sched.setStatus, hall]
    · simpa [Sched.setStatus, hqp] using h.all_mem q
  · exact h.idle_live
  · simpa [Sched.setStatus, Ne.symm hinit] using h.initial_kept

namespace Descheduled

/-- The thread that `next_thread_to_run` chooses is ready, or the idle thread; it is on no list
any more. -/
theorem next_spec (h : Descheduled s) {next : P} {s₁ : Sched P X}
    (hnext : s.next_thread_to_run = (some next, s₁)) :
    (s.status next = some .ready ∨ s.idle_thread = some next) ∧
      s₁ = { s with fifo_ready_list := s₁.fifo_ready_list } ∧ next ∉ s₁.fifo_ready_list ∧
      (∀ p, p ∈ s.fifo_ready_list ↔ p = next ∧ s.fifo_ready_list ≠ [] ∨ p ∈ s₁.fifo_ready_list) ∧
      s₁.fifo_ready_list.Nodup := by
  have hnodup := h.ready_nodup
  cases hready : s.fifo_ready_list with
  | nil =>
      simp only [Sched.next_thread_to_run, hready, Prod.mk.injEq] at hnext
      rcases hnext with ⟨hidle, rfl⟩
      refine ⟨Or.inr hidle, rfl, by simp [hready], fun p => by simp [hready], hnodup⟩
  | cons q qs =>
      rw [hready, List.nodup_cons] at hnodup
      simp only [Sched.next_thread_to_run, hready, Prod.mk.injEq, Option.some.injEq] at hnext
      rcases hnext with ⟨rfl, rfl⟩
      refine ⟨Or.inl (h.ready_status q (by simp [hready])), rfl, hnodup.1, fun p => ?_, hnodup.2⟩
      simp

/-- The chosen thread is a live one. -/
theorem next_live (h : Descheduled s) {next : P}
    (hnext : s.status next = some .ready ∨ s.idle_thread = some next) :
    next ∈ s.all_list ∧ ∀ x, next ∉ (s.sema x).waiters := by
  rcases hnext with hready | hidle
  · refine ⟨(h.all_mem next).2 ⟨_, hready, by decide⟩, fun x hx => ?_⟩
    have hblocked := (h.waiting x next hx).1
    rw [hready] at hblocked
    cases hblocked
  · exact ⟨h.idle_live next hidle, fun x hx => (h.waiting x next hx).2 hidle⟩

variable [DecidableEq P]

theorem resume (h : Descheduled s) {next : P} {s₁ : Sched P X}
    (hnext : s.next_thread_to_run = (some next, s₁)) : SchedLists (s₁.resumed next) := by
  rcases h.next_spec hnext with ⟨hchosen, hs₁, hnot, hmem, hnodup⟩
  rcases h.next_live hchosen with ⟨hlive, hwait⟩
  rw [hs₁, Sched.resumed]
  constructor
  · intro p hp
    have hpn : p ≠ next := fun heq => hnot (heq ▸ hp)
    simpa [Sched.setStatus, hpn] using h.ready_status p ((hmem p).2 (Or.inr hp))
  · intro p hp hidle
    have hpn : p ≠ next := by
      rintro rfl
      simp [Sched.setStatus] at hp
    rcases (hmem p).1 (h.ready_mem p (by simpa [Sched.setStatus, hpn] using hp) hidle) with hp' | hp'
    · exact absurd hp'.1 hpn
    · exact hp'
  · exact hnodup
  · intro x p hp
    have hpn : p ≠ next := fun heq => hwait x (heq ▸ hp)
    simpa [Sched.setStatus, hpn] using h.waiting x p hp
  · exact h.waiters_nodup
  · exact h.waiters_one
  · exact h.all_nodup
  · intro p
    by_cases hpn : p = next
    · subst hpn
      simp [Sched.setStatus, hlive]
    · simpa [Sched.setStatus, hpn] using h.all_mem p
  · exact h.idle_live
  · by_cases hin : s.initial_thread = next
    · simp [Sched.setStatus, hin]
    · simpa [Sched.setStatus, hin] using h.initial_kept

/-- `schedule` makes a ready thread or the idle thread the one that runs, and frees the page of the
thread left behind if and only if that thread is dying and not the initial one. -/
theorem schedule_spec (h : Descheduled s) (hidle : s.idle_thread = some s.running_thread →
      s.status s.running_thread ≠ some .dying) (hs : s.schedule = some (s', freed)) :
    SchedInv s' ∧
      (s.status s'.running_thread = some .ready ∨ s.idle_thread = some s'.running_thread) ∧
      (s.status s.running_thread = some .dying → s'.running_thread ≠ s.running_thread) ∧
      freed = if s.status s.running_thread = some .dying ∧ s.running_thread ≠ s.initial_thread then
        [s.running_thread] else [] := by
  rcases hnext : s.next_thread_to_run with ⟨_ | next, s₁⟩
  · simp [Sched.schedule, hnext] at hs
  have hlists := h.resume hnext
  rcases h.next_spec hnext with ⟨hchosen, hs₁, _⟩
  have hstatus : ∀ p, p ≠ next → (s₁.resumed next).status p = s.status p := by
    intro p hp
    rw [hs₁]
    simp [Sched.resumed, Sched.setStatus, hp]
  have hself : (s₁.resumed next).status next = some .running := by
    simp [Sched.resumed, Sched.setStatus]
  have honly : ∀ p, (s₁.resumed next).status p = some .running → p = next := by
    intro p hp
    by_contra hpn
    rw [hstatus p hpn] at hp
    exact h.none_running p hp
  have hnd : s.status next ≠ some .dying ∨ s.running_thread ≠ next := by
    rcases hchosen with hready | hid
    · left
      rw [hready]
      simp
    · by_cases hcn : s.running_thread = next
      · left
        rw [← hcn]
        exact hidle (by rw [hcn, hid])
      · exact Or.inr hcn
  have hdead : ∀ p, (s₁.resumed next).status p = some .dying →
      p = s.initial_thread ∨ (p = s.running_thread ∧ p ≠ next) := by
    intro p hp
    have hpn : p ≠ next := by
      rintro rfl
      rw [hself] at hp
      cases hp
    rcases h.dead p (by rwa [← hstatus p hpn]) with hp' | hp'
    · exact Or.inl hp'
    · exact Or.inr ⟨hp', hpn⟩
  have hinit : (s₁.resumed next).initial_thread = s.initial_thread := by
    rw [hs₁]
    rfl
  simp only [Sched.schedule, hnext] at hs
  split at hs
  · cases hs
  by_cases hcn : s.running_thread = next
  · -- the thread goes on itself, so it is not dying
    have hrun : s₁.running_thread = next := by
      rw [hs₁]
      exact hcn
    have htail : s₁.thread_switch_tail none = some (s₁.resumed next, []) := by
      rw [Sched.thread_switch_tail, Sched.resumed, ← hrun]
    rw [if_neg (not_not.2 hcn), htail, Option.some.injEq, Prod.mk.injEq] at hs
    rcases hs with ⟨rfl, rfl⟩
    have hne : s.status s.running_thread ≠ some .dying := by
      rcases hnd with hnd | hnd
      · rwa [hcn]
      · exact absurd hcn hnd
    refine ⟨⟨hlists, hself, honly, fun p hp => ?_⟩, hchosen, fun hd => absurd hd hne, ?_⟩
    · rw [hinit]
      rcases hdead p hp with hp' | ⟨hp', hpn⟩
      · exact hp'
      · exact absurd (hp'.trans hcn) hpn
    · rw [if_neg fun hd => hne hd.1]
  · have hcur := hstatus s.running_thread hcn
    have htail : ({ s₁ with running_thread := next } : Sched P X).thread_switch_tail
        (some s.running_thread) =
        if s.status s.running_thread = some .dying ∧ s.running_thread ≠ s.initial_thread then
          some ((s₁.resumed next).setStatus s.running_thread none, [s.running_thread])
        else some (s₁.resumed next, []) := by
      have hcond : ((s₁.resumed next).status s.running_thread = some .dying ∧
          s.running_thread ≠ (s₁.resumed next).initial_thread) ↔
          (s.status s.running_thread = some .dying ∧ s.running_thread ≠ s.initial_thread) := by
        rw [hcur, hinit]
      have hne : ¬ s.running_thread = (s₁.resumed next).running_thread := hcn
      simp only [Sched.thread_switch_tail]
      split
      · rename_i hd
        rw [if_pos (hcond.1 hd)]
        exact if_neg hne
      · rename_i hd
        rw [if_neg fun hc => hd (hcond.2 hc)]
        rfl
    rw [if_pos hcn, htail] at hs
    split at hs
    · rename_i hd
      rw [Option.some.injEq, Prod.mk.injEq] at hs
      rcases hs with ⟨rfl, rfl⟩
      refine ⟨⟨hlists.free (by rw [hcur]; exact hd.1) (by rw [hinit]; exact hd.2), ?_, ?_, ?_⟩,
        hchosen, fun _ => Ne.symm hcn, (if_pos hd).symm⟩
      · simp [Sched.setStatus, Ne.symm hcn, Sched.resumed]
      · intro p hp
        have hpc : p ≠ s.running_thread := by
          rintro rfl
          simp [Sched.setStatus] at hp
        exact honly p (by simpa [Sched.setStatus, hpc] using hp)
      · intro p hp
        have hpc : p ≠ s.running_thread := by
          rintro rfl
          simp [Sched.setStatus] at hp
        rcases hdead p (by simpa [Sched.setStatus, hpc] using hp) with hp' | ⟨hp', _⟩
        · exact hp'.trans hinit.symm
        · exact absurd hp' hpc
    · rename_i hd
      rw [Option.some.injEq, Prod.mk.injEq] at hs
      rcases hs with ⟨rfl, rfl⟩
      refine ⟨⟨hlists, hself, honly, fun p hp => ?_⟩, hchosen, fun _ => Ne.symm hcn,
        (if_neg hd).symm⟩
      rw [hinit]
      rcases hdead p hp with hp' | ⟨hp', hpn⟩
      · exact hp'
      · by_contra hne
        rw [hstatus p hpn, hp'] at hp
        exact hd ⟨hp, hp' ▸ hne⟩

/-- With an idle thread there is always a thread to run, and no assertion fails. -/
theorem schedule_ok (h : Descheduled s) (hidle : s.idle_thread ≠ none) :
    ∃ r, s.schedule = some r := by
  rcases hnext : s.next_thread_to_run with ⟨_ | next, s₁⟩
  · cases hready : s.fifo_ready_list with
    | nil =>
        simp only [Sched.next_thread_to_run, hready, Prod.mk.injEq] at hnext
        exact absurd hnext.1 hidle
    | cons q qs =>
        simp [Sched.next_thread_to_run, hready] at hnext
  rcases h.next_spec hnext with ⟨hchosen, hs₁, _⟩
  rcases (h.all_mem next).1 (h.next_live hchosen).1 with ⟨st, hst, _⟩
  have hstatus : s₁.status = s.status := by rw [hs₁]
  have hassert : ¬ (s₁.status s.running_thread = some .running ∨ s₁.status next = none) := by
    rw [hstatus, hst, not_or]
    exact ⟨h.none_running _, by simp⟩
  simp only [Sched.schedule, hnext, if_neg hassert]
  split
  · rename_i hcn
    simp only [Sched.thread_switch_tail]
    split
    · rw [if_neg (by simpa [Sched.setStatus] using hcn)]
      exact ⟨_, rfl⟩
    · exact ⟨_, rfl⟩
  · exact ⟨_, rfl⟩

end Descheduled

/-! ## Changes of the lists -/

namespace SchedLists

/-- A thread that is on no list becomes ready and goes to the end of the run queue. -/
theorem enqueue [DecidableEq P] (h : SchedLists s) (hready : p ∉ s.fifo_ready_list)
    (hwait : ∀ x, p ∉ (s.sema x).waiters) (hlive : p ∈ s.all_list) :
    SchedLists ((s.thread_enqueue p).setStatus p (some .ready)) where
  ready_status q hq := by
    by_cases hqp : q = p
    · subst hqp
      simp [Sched.setStatus]
    · have hq' : q ∈ s.fifo_ready_list := by
        simpa [Sched.setStatus, Sched.thread_enqueue, hqp] using hq
      simpa [Sched.setStatus, Sched.thread_enqueue, hqp] using h.ready_status q hq'
  ready_mem q hq hidle := by
    by_cases hqp : q = p
    · subst hqp
      simp [Sched.setStatus, Sched.thread_enqueue]
    · have hst : s.status q = some .ready := by
        simpa [Sched.setStatus, Sched.thread_enqueue, hqp] using hq
      simpa [Sched.setStatus, Sched.thread_enqueue, hqp] using h.ready_mem q hst hidle
  ready_nodup := by
    simpa [Sched.setStatus, Sched.thread_enqueue, List.nodup_append, h.ready_nodup] using
      fun a ha => ne_of_mem_of_not_mem ha hready
  waiting x q hq := by
    have hqp : q ≠ p := fun heq => hwait x (heq ▸ hq)
    simpa [Sched.setStatus, Sched.thread_enqueue, hqp] using h.waiting x q hq
  waiters_nodup := h.waiters_nodup
  waiters_one := h.waiters_one
  all_nodup := h.all_nodup
  all_mem q := by
    by_cases hqp : q = p
    · subst hqp
      simp [Sched.setStatus, Sched.thread_enqueue, hlive]
    · simpa [Sched.setStatus, Sched.thread_enqueue, hqp] using h.all_mem q
  idle_live := h.idle_live
  initial_kept := by
    by_cases hin : s.initial_thread = p
    · simp [Sched.setStatus, Sched.thread_enqueue, hin]
    · simpa [Sched.setStatus, Sched.thread_enqueue, hin] using h.initial_kept

/-- A live thread that is on no list is blocked, or is the idle thread and becomes ready. -/
theorem park [DecidableEq P] (h : SchedLists s) {st : ThreadStatus}
    (hst : st = .blocked ∨ (st = .ready ∧ s.idle_thread = some p))
    (hready : p ∉ s.fifo_ready_list) (hwait : ∀ x, p ∉ (s.sema x).waiters)
    (hlive : p ∈ s.all_list) : SchedLists (s.setStatus p (some st)) where
  ready_status q hq := by
    have hqp : q ≠ p := fun heq => hready (heq ▸ hq)
    simpa [Sched.setStatus, hqp] using h.ready_status q hq
  ready_mem q hq hidle := by
    by_cases hqp : q = p
    · subst hqp
      rcases hst with rfl | ⟨rfl, hid⟩
      · simp [Sched.setStatus] at hq
      · exact absurd hid hidle
    · exact h.ready_mem q (by simpa [Sched.setStatus, hqp] using hq) hidle
  ready_nodup := h.ready_nodup
  waiting x q hq := by
    have hqp : q ≠ p := fun heq => hwait x (heq ▸ hq)
    simpa [Sched.setStatus, hqp] using h.waiting x q hq
  waiters_nodup := h.waiters_nodup
  waiters_one := h.waiters_one
  all_nodup := h.all_nodup
  all_mem q := by
    by_cases hqp : q = p
    · subst hqp
      rcases hst with rfl | ⟨rfl, _⟩ <;> simp [Sched.setStatus, hlive]
    · simpa [Sched.setStatus, hqp] using h.all_mem q
  idle_live := h.idle_live
  initial_kept := by
    by_cases hin : s.initial_thread = p
    · simp [Sched.setStatus, hin]
    · simpa [Sched.setStatus, hin] using h.initial_kept

variable [DecidableEq X] {x : X} {σ : Semaphore P}

/-- A blocked thread goes on the list of a semaphore. -/
theorem push_waiter (h : SchedLists s) (hp : s.status p = some .blocked)
    (hidle : s.idle_thread ≠ some p) (hwait : ∀ y, p ∉ (s.sema y).waiters)
    (hσ : σ.waiters = (s.sema x).waiters ++ [p]) : SchedLists (s.setSema x σ) := by
  have hmem : ∀ y q, q ∈ ((s.setSema x σ).sema y).waiters →
      (q = p ∧ y = x) ∨ q ∈ (s.sema y).waiters := by
    intro y q hq
    by_cases hyx : y = x
    · subst hyx
      have hq' : q ∈ (s.sema y).waiters ∨ q = p := by
        simpa [Sched.setSema, hσ] using hq
      exact hq'.symm.imp_left fun hqp => ⟨hqp, rfl⟩
    · exact Or.inr (by simpa [Sched.setSema, hyx] using hq)
  refine ⟨h.ready_status, h.ready_mem, h.ready_nodup, fun y q hq => ?_, fun y => ?_,
    fun y z q hy hz => ?_, h.all_nodup, h.all_mem, h.idle_live, h.initial_kept⟩
  · rcases hmem y q hq with ⟨rfl, _⟩ | hq'
    · exact ⟨hp, hidle⟩
    · exact h.waiting y q hq'
  · by_cases hyx : y = x
    · subst hyx
      simpa [Sched.setSema, hσ, List.nodup_append, h.waiters_nodup] using
        fun a ha => ne_of_mem_of_not_mem ha (hwait y)
    · simpa [Sched.setSema, hyx] using h.waiters_nodup y
  · rcases hmem y q hy with ⟨rfl, rfl⟩ | hy'
    · rcases hmem z q hz with ⟨_, rfl⟩ | hz'
      · rfl
      · exact absurd hz' (hwait z)
    · rcases hmem z q hz with ⟨rfl, rfl⟩ | hz'
      · exact absurd hy' (hwait y)
      · exact h.waiters_one y z q hy' hz'

/-- Threads leave the list of a semaphore. -/
theorem shrink_waiters (h : SchedLists s) (hσ : σ.waiters.Sublist (s.sema x).waiters) :
    SchedLists (s.setSema x σ) := by
  have hsub : ∀ y q, q ∈ ((s.setSema x σ).sema y).waiters → q ∈ (s.sema y).waiters := by
    intro y q hq
    by_cases hyx : y = x
    · subst hyx
      exact hσ.subset (by simpa [Sched.setSema] using hq)
    · simpa [Sched.setSema, hyx] using hq
  refine ⟨h.ready_status, h.ready_mem, h.ready_nodup, fun y q hq => h.waiting y q (hsub y q hq),
    fun y => ?_, fun y z q hy hz => h.waiters_one y z q (hsub y q hy) (hsub z q hz), h.all_nodup,
    h.all_mem, h.idle_live, h.initial_kept⟩
  by_cases hyx : y = x
  · subst hyx
    simpa [Sched.setSema] using hσ.nodup (h.waiters_nodup y)
  · simpa [Sched.setSema, hyx] using h.waiters_nodup y

end SchedLists

/-! ## The sections -/

/-- The pages that a section is to free. -/
def sched_freed [DecidableEq P] (s : Sched P X) : SchedEvent P X → List P
  | .exit => if s.running_thread ≠ s.initial_thread then [s.running_thread] else []
  | _ => []

/-- What is known of a section that frees the pages `freed`: once there is an idle thread no
assertion fails; the invariant holds at its end; and if another thread runs then, that thread was
ready, or it is the idle thread. -/
structure SectionSpec (s : Sched P X) (o : Option (Sched P X × List P)) (freed : List P) : Prop where
  ok : s.idle_thread ≠ none → ∃ r, o = some r
  inv : ∀ s' fr, o = some (s', fr) → SchedInv s'
  freed : ∀ s' fr, o = some (s', fr) → fr = freed
  chosen : ∀ s' fr, o = some (s', fr) → s'.running_thread ≠ s.running_thread →
    s.status s'.running_thread = some .ready ∨ s.idle_thread = some s'.running_thread

/-- A section after which the same thread goes on. -/
theorem SectionSpec.stay (hinv : SchedInv s') (hrun : s'.running_thread = s.running_thread) :
    SectionSpec s (some (s', [])) [] where
  ok _ := ⟨_, rfl⟩
  inv _ _ hs := (Prod.mk.inj (Option.some.inj hs)).1 ▸ hinv
  freed _ _ hs := (Prod.mk.inj (Option.some.inj hs)).2.symm
  chosen _ _ hs hne := absurd ((Prod.mk.inj (Option.some.inj hs)).1 ▸ hrun) hne

namespace SchedInv

/-- The running thread is a live one and on no list but that of all threads. -/
theorem run_free (h : SchedInv s) : s.running_thread ∉ s.fifo_ready_list ∧
    (∀ x, s.running_thread ∉ (s.sema x).waiters) ∧ s.running_thread ∈ s.all_list := by
  refine ⟨fun hmem => ?_, fun x hmem => ?_, (h.all_mem _).2 ⟨_, h.running, by decide⟩⟩
  · have hst := h.ready_status _ hmem
    rw [h.running] at hst
    cases hst
  · have hst := (h.waiting x _ hmem).1
    rw [h.running] at hst
    cases hst

variable [DecidableEq P]

/-- The running thread has given up its status for `st`. -/
theorem deschedule (h : SchedInv s) {s₁ : Sched P X} (hlists : SchedLists s₁) {st : ThreadStatus}
    (hst : st ≠ .running) (hstatus : s₁.status = Function.update s.status s.running_thread (some st))
    (hrun : s₁.running_thread = s.running_thread) (hinit : s₁.initial_thread = s.initial_thread) :
    Descheduled s₁ where
  toSchedLists := hlists
  none_running p hp := by
    rw [hstatus] at hp
    by_cases hpr : p = s.running_thread
    · rw [hpr, Function.update_self] at hp
      exact hst (Option.some.inj hp)
    · rw [Function.update_of_ne hpr] at hp
      exact hpr (h.only p hp)
  dead p hp := by
    rw [hinit, hrun]
    by_cases hpr : p = s.running_thread
    · exact Or.inr hpr
    · rw [hstatus, Function.update_of_ne hpr] at hp
      exact Or.inl (h.dead p hp)
  live := by
    rw [hstatus, hrun, Function.update_self]
    simp

/-- The running thread leaves the CPU.  Its page is freed if it is dying. -/
theorem switch (h : SchedInv s) {s₁ : Sched P X} (hlists : SchedLists s₁) {st : ThreadStatus}
    (hst : st ≠ .running) (hnd : st = .dying → s.idle_thread ≠ some s.running_thread)
    (hstatus : s₁.status = Function.update s.status s.running_thread (some st))
    (hrun : s₁.running_thread = s.running_thread) (hinit : s₁.initial_thread = s.initial_thread)
    (hidle : s₁.idle_thread = s.idle_thread) :
    SectionSpec s s₁.schedule
        (if st = .dying ∧ s.running_thread ≠ s.initial_thread then [s.running_thread] else []) ∧
      ∀ s' freed, s₁.schedule = some (s', freed) → st = .dying →
        s'.running_thread ≠ s.running_thread := by
  have hdes := h.deschedule hlists hst hstatus hrun hinit
  have hcur : s₁.status s₁.running_thread = some st := by
    rw [hstatus, hrun, Function.update_self]
  have hspec : ∀ {s' freed}, s₁.schedule = some (s', freed) → _ := fun {s' freed} hs =>
    @Descheduled.schedule_spec _ _ _ s' freed _ hdes
      (fun hid hd => by
        rw [hcur, Option.some.injEq] at hd
        exact hnd hd (by rw [← hidle, hid, hrun])) hs
  refine ⟨⟨fun hid => hdes.schedule_ok (by rwa [hidle]), fun s' fr hs => (hspec hs).1,
    fun s' fr hs => ?_, fun s' fr hs hne => ?_⟩, fun s' fr hs hd => ?_⟩
  · rw [(hspec hs).2.2.2, hcur, hrun, hinit]
    simp only [Option.some.injEq]
  · rcases (hspec hs).2.1 with hready | hid
    · left
      rwa [hstatus, Function.update_of_ne hne] at hready
    · right
      rwa [hidle] at hid
  · rw [← hrun]
    exact (hspec hs).2.2.1 (by rw [hcur, hd])

theorem block (h : SchedInv s) : SectionSpec s s.thread_block [] := by
  rcases h.run_free with ⟨hready, hwait, hlive⟩
  exact (h.switch (h.park (Or.inl rfl) hready hwait hlive) (by decide) (by simp) rfl rfl rfl rfl).1

theorem yield (h : SchedInv s) : SectionSpec s s.thread_yield [] := by
  rcases h.run_free with ⟨hready, hwait, hlive⟩
  by_cases hidle : s.idle_thread = some s.running_thread
  · have hyield : s.thread_yield = (s.setStatus s.running_thread (some .ready)).schedule := by
      simp [Sched.thread_yield, hidle]
    rw [hyield]
    exact (h.switch (h.park (Or.inr ⟨rfl, hidle⟩) hready hwait hlive) (by decide) (by simp)
      rfl rfl rfl rfl).1
  · have hyield : s.thread_yield =
        ((s.thread_enqueue s.running_thread).setStatus s.running_thread (some .ready)).schedule := by
      simp [Sched.thread_yield, hidle]
    rw [hyield]
    exact (h.switch (h.enqueue hready hwait hlive) (by decide) (by simp) rfl rfl rfl rfl).1

/-- A thread that ends goes off the list of all threads. -/
theorem dying (h : SchedInv s) (hidle : s.idle_thread ≠ some s.running_thread) :
    SchedLists { s.setStatus s.running_thread (some .dying) with
      all_list := s.all_list.erase s.running_thread } := by
  rcases h.run_free with ⟨hready, hwait, hlive⟩
  constructor
  · intro q hq
    have hqp : q ≠ s.running_thread := fun heq => hready (heq ▸ hq)
    simpa [Sched.setStatus, hqp] using h.ready_status q hq
  · intro q hq hid
    have hqp : q ≠ s.running_thread := by
      rintro rfl
      simp [Sched.setStatus] at hq
    exact h.ready_mem q (by simpa [Sched.setStatus, hqp] using hq) hid
  · exact h.ready_nodup
  · intro x q hq
    have hqp : q ≠ s.running_thread := fun heq => hwait x (heq ▸ hq)
    simpa [Sched.setStatus, hqp] using h.waiting x q hq
  · exact h.waiters_nodup
  · exact h.waiters_one
  · exact h.all_nodup.erase _
  · intro q
    by_cases hqp : q = s.running_thread
    · subst hqp
      simp [Sched.setStatus, h.all_nodup.mem_erase_iff]
    · simpa [Sched.setStatus, hqp, h.all_nodup.mem_erase_iff] using h.all_mem q
  · intro q hq
    have hqp : q ≠ s.running_thread := by
      rintro rfl
      exact hidle hq
    exact (h.all_nodup.mem_erase_iff).2 ⟨hqp, h.idle_live q hq⟩
  · by_cases hin : s.initial_thread = s.running_thread
    · simp [Sched.setStatus, hin]
    · simpa [Sched.setStatus, hin] using h.initial_kept

/-- The page of a thread that ends is freed unless it is the initial thread's, and the thread no
longer runs. -/
theorem exit (h : SchedInv s) (hidle : s.idle_thread ≠ some s.running_thread) :
    SectionSpec s s.thread_exit
        (if s.running_thread ≠ s.initial_thread then [s.running_thread] else []) ∧
      ∀ s' freed, s.thread_exit = some (s', freed) → s'.running_thread ≠ s.running_thread := by
  have hswitch := @switch _ _ _ _ h _ (h.dying hidle) .dying (by decide) (fun _ => hidle)
    rfl rfl rfl rfl
  have hfreed : (if s.running_thread ≠ s.initial_thread then [s.running_thread] else []) =
      if ThreadStatus.dying = .dying ∧ s.running_thread ≠ s.initial_thread then
        [s.running_thread] else [] := by
    simp
  rw [hfreed]
  exact ⟨hswitch.1, fun s' freed hs => hswitch.2 s' freed hs rfl⟩

theorem unblock (h : SchedInv s) (hp : s.status p = some .blocked)
    (hwait : ∀ x, p ∉ (s.sema x).waiters) :
    ∃ s', s.thread_unblock p = some s' ∧ SchedInv s' ∧ s'.running_thread = s.running_thread := by
  have hready : p ∉ s.fifo_ready_list := by
    intro hmem
    have hst := h.ready_status p hmem
    rw [hp] at hst
    cases hst
  have hlive : p ∈ s.all_list := (h.all_mem p).2 ⟨_, hp, by decide⟩
  have hrun : s.running_thread ≠ p := by
    rintro rfl
    rw [h.running] at hp
    cases hp
  refine ⟨(s.thread_enqueue p).setStatus p (some .ready), by rw [Sched.thread_unblock, if_pos hp],
    ⟨h.enqueue hready hwait hlive, ?_, fun q hq => ?_, fun q hq => ?_⟩, rfl⟩
  · simpa [Sched.setStatus, Sched.thread_enqueue, hrun] using h.running
  · have hqp : q ≠ p := by
      rintro rfl
      simp [Sched.setStatus] at hq
    exact h.only q (by simpa [Sched.setStatus, Sched.thread_enqueue, hqp] using hq)
  · have hqp : q ≠ p := by
      rintro rfl
      simp [Sched.setStatus] at hq
    exact h.dead q (by simpa [Sched.setStatus, Sched.thread_enqueue, hqp] using hq)

theorem create (h : SchedInv s) (hp : s.status p = none) : SchedInv (s.init_thread p) := by
  have hnot : ∀ q st, s.status q = some st → q ≠ p := by
    rintro q st hq rfl
    rw [hp] at hq
    cases hq
  have hall : p ∉ s.all_list := by
    rw [h.all_mem, hp]
    simp
  have hother : ∀ q, q ≠ p → (s.init_thread p).status q = s.status q := by
    intro q hq
    simp [Sched.init_thread, Sched.setStatus, hq]
  have hself : (s.init_thread p).status p = some .blocked := by
    simp [Sched.init_thread, Sched.setStatus]
  refine ⟨⟨fun q hq => ?_, fun q hq hidle => ?_, h.ready_nodup, fun x q hq => ?_, h.waiters_nodup,
    h.waiters_one, ?_, fun q => ?_, fun q hq => ?_, ?_⟩, ?_, fun q hq => ?_, fun q hq => ?_⟩
  · have hst := h.ready_status q hq
    rw [hother q (hnot q _ hst), hst]
  · have hqp : q ≠ p := by
      rintro rfl
      rw [hself] at hq
      cases hq
    exact h.ready_mem q (by rwa [hother q hqp] at hq) hidle
  · have hst := h.waiting x q hq
    exact ⟨by rw [hother q (hnot q _ hst.1), hst.1], hst.2⟩
  · simpa [Sched.init_thread, List.nodup_append, h.all_nodup] using
      fun a ha => ne_of_mem_of_not_mem ha hall
  · by_cases hqp : q = p
    · subst hqp
      simp [Sched.init_thread, Sched.setStatus]
    · simpa [Sched.init_thread, Sched.setStatus, hqp] using h.all_mem q
  · exact List.mem_append_left _ (h.idle_live q hq)
  · rcases Option.ne_none_iff_exists'.1 h.initial_kept with ⟨st, hst⟩
    change (s.init_thread p).status s.initial_thread ≠ none
    rw [hother _ (hnot _ _ hst)]
    exact h.initial_kept
  · change (s.init_thread p).status s.running_thread = some .running
    rw [hother _ (hnot _ _ h.running), h.running]
  · have hqp : q ≠ p := by
      rintro rfl
      rw [hself] at hq
      cases hq
    exact h.only q (by rwa [hother q hqp] at hq)
  · have hqp : q ≠ p := by
      rintro rfl
      rw [hself] at hq
      cases hq
    exact h.dead q (by rwa [hother q hqp] at hq)

theorem tick (h : SchedInv s) : SectionSpec s s.thread_tick [] := by
  have hinv : SchedInv { s with thread_ticks := s.thread_ticks + 1 } :=
    ⟨⟨h.ready_status, h.ready_mem, h.ready_nodup, h.waiting, h.waiters_nodup, h.waiters_one,
      h.all_nodup, h.all_mem, h.idle_live, h.initial_kept⟩, h.running, h.only, h.dead⟩
  simp only [Sched.thread_tick]
  split
  · have hyield := hinv.yield
    exact ⟨hyield.ok, hyield.inv, hyield.freed, hyield.chosen⟩
  · exact SectionSpec.stay hinv rfl

omit [DecidableEq P] in
/-- The thread that `idle` runs on is the idle thread from here on. -/
theorem idle (h : SchedInv s) (hnone : s.idle_thread = none) :
    SchedInv { s with idle_thread := some s.running_thread } := by
  rcases h.run_free with ⟨hready, hwait, hlive⟩
  refine ⟨⟨h.ready_status, fun p hp _ => ?_, h.ready_nodup, fun x p hp => ⟨(h.waiting x p hp).1, ?_⟩,
    h.waiters_nodup, h.waiters_one, h.all_nodup, h.all_mem, ?_, h.initial_kept⟩, h.running, h.only,
    h.dead⟩
  · exact h.ready_mem p hp (by simp [hnone])
  · intro heq
    exact hwait x (Option.some.inj heq ▸ hp)
  · intro p hp
    exact Option.some.inj hp ▸ hlive

variable [DecidableEq X]

theorem sema_down (h : SchedInv s) (hidle : s.idle_thread ≠ some s.running_thread) (x : X) :
    SectionSpec s (s.sema_down_pass x) [] := by
  rcases h.run_free with ⟨hready, hwait, hlive⟩
  by_cases hvalue : (s.sema x).value = 0
  · -- the thread is blocked first here, and goes on the list then
    have hpass : s.sema_down_pass x =
        ((s.setStatus s.running_thread (some .blocked)).setSema x
          (Berk162.sema_down (s.sema x) s.running_thread).1).schedule := by
      simp only [Sched.sema_down_pass, Berk162.sema_down, hvalue, if_true]
      rfl
    have hpark := h.park (Or.inl rfl) hready hwait hlive
    have hpush := @SchedLists.push_waiter _ _ _ _ _ x
      (Berk162.sema_down (s.sema x) s.running_thread).1 hpark (by simp [Sched.setStatus]) hidle hwait
      (by simp [Berk162.sema_down, hvalue, Sched.setStatus])
    rw [hpass]
    exact (h.switch hpush (by decide) (by simp) rfl rfl rfl rfl).1
  · have hpass : s.sema_down_pass x = some
        (s.setSema x (Berk162.sema_down (s.sema x) s.running_thread).1, []) := by
      simp only [Sched.sema_down_pass, Berk162.sema_down, hvalue, if_false]
    have hlists := @SchedLists.shrink_waiters _ _ _ _ x
      (Berk162.sema_down (s.sema x) s.running_thread).1 h.toSchedLists (by simp [Berk162.sema_down, hvalue])
    rw [hpass]
    exact SectionSpec.stay ⟨hlists, h.running, h.only, h.dead⟩ rfl

theorem sema_up (h : SchedInv s) (x : X) : SectionSpec s (s.sema_up_call x) [] := by
  have hsub : (Berk162.sema_up (s.sema x)).1.waiters.Sublist (s.sema x).waiters :=
    List.tail_sublist _
  have hshrunk : SchedInv (s.setSema x (Berk162.sema_up (s.sema x)).1) :=
    ⟨h.shrink_waiters hsub, h.running, h.only, h.dead⟩
  cases hw : (s.sema x).waiters with
  | nil =>
      have hcall : s.sema_up_call x = some (s.setSema x (Berk162.sema_up (s.sema x)).1, []) := by
        simp only [Sched.sema_up_call, Berk162.sema_up, hw, List.head?_nil]
      rw [hcall]
      exact SectionSpec.stay hshrunk rfl
  | cons q qs =>
      have hcall : s.sema_up_call x =
          ((s.setSema x (Berk162.sema_up (s.sema x)).1).thread_unblock q).map
            fun s => (s, []) := by
        simp only [Sched.sema_up_call, Berk162.sema_up, hw, List.head?_cons]
      have hq : q ∈ (s.sema x).waiters := by simp [hw]
      have hnodup := h.waiters_nodup x
      rw [hw, List.nodup_cons] at hnodup
      -- the popped thread was on this list once and on no other
      have hnone : ∀ y, q ∉ ((s.setSema x (Berk162.sema_up (s.sema x)).1).sema y).waiters := by
        intro y hy
        by_cases hyx : y = x
        · subst hyx
          exact hnodup.1 (by simpa [Sched.setSema, Berk162.sema_up, hw] using hy)
        · exact hyx (h.waiters_one y x q (by simpa [Sched.setSema, hyx] using hy) hq)
      rcases hshrunk.unblock (h.waiting x q hq).1 hnone with ⟨s', hs', hinv, hrun⟩
      rw [hcall, hs']
      exact SectionSpec.stay hinv hrun

/-- Each section frees what `sched_freed` says. -/
theorem section_spec (h : SchedInv s) {e : SchedEvent P X} (he : sched_enabled s e) :
    SectionSpec s (sched_section s e) (sched_freed s e) := by
  cases e with
  | create p =>
      exact SectionSpec.stay (h.create he) rfl
  | unblock p =>
      rcases h.unblock he.1 he.2 with ⟨s', hs', hinv, hrun⟩
      have hcall : sched_section s (.unblock p) = some (s', []) := by
        simp only [sched_section, hs', Option.map_some]
      rw [hcall]
      exact SectionSpec.stay hinv hrun
  | block =>
      exact h.block
  | yield =>
      exact h.yield
  | exit =>
      exact (h.exit he).1
  | sema_down x =>
      exact h.sema_down he x
  | sema_up x =>
      exact h.sema_up x
  | tick =>
      exact h.tick
  | idle =>
      exact SectionSpec.stay (h.idle he) rfl

end SchedInv

/-! ## Creations and frees -/

section
variable [DecidableEq P]

omit [DecidableEq P] in
/-- What `schedule` leaves alone. -/
def Sched.kept (s : Sched P X) : List P × P := (s.all_list, s.initial_thread)

theorem Sched.schedule_kept (hs : s.schedule = some (s', freed)) :
    s'.kept = s.kept := by
  have hnext : s.next_thread_to_run.2.kept = s.kept := by
    cases hready : s.fifo_ready_list <;> simp [Sched.next_thread_to_run, hready, Sched.kept]
  have htail : ∀ {t : Sched P X} {prev}, t.thread_switch_tail prev = some (s', freed) →
      s'.kept = t.kept := by
    intro t prev ht
    cases prev with
    | none =>
        simp only [Sched.thread_switch_tail, Option.some.injEq, Prod.mk.injEq] at ht
        rw [← ht.1]
        rfl
    | some p =>
        simp only [Sched.thread_switch_tail] at ht
        split at ht
        · split at ht
          · cases ht
          · rw [← (Prod.mk.inj (Option.some.inj ht)).1]
            rfl
        · rw [← (Prod.mk.inj (Option.some.inj ht)).1]
          rfl
  rcases hn : s.next_thread_to_run with ⟨_ | next, s₁⟩
  · simp [Sched.schedule, hn] at hs
  rw [hn] at hnext
  simp only [Sched.schedule, hn] at hs
  split at hs
  · cases hs
  · split at hs
    · exact (htail hs).trans hnext
    · exact (htail hs).trans hnext

theorem Sched.thread_yield_kept (hs : s.thread_yield = some (s', freed)) :
    s'.kept = s.kept := by
  have hall := Sched.schedule_kept hs
  rw [hall]
  change (if _ then _ else _ : Sched P X).kept = _
  split <;> rfl

variable [DecidableEq X]

/-- The list of all threads after a section. -/
def sched_all_list (s : Sched P X) : SchedEvent P X → List P
  | .create p => s.all_list ++ [p]
  | .exit => s.all_list.erase s.running_thread
  | _ => s.all_list

theorem sched_section_kept {e : SchedEvent P X} (hs : sched_section s e = some (s', freed)) :
    s'.kept = (sched_all_list s e, s.initial_thread) := by
  have hpair : ∀ {t : Sched P X} {fr : List P} {l : List P × P}, some (t, fr) = some (s', freed) →
      t.kept = l → s'.kept = l := by
    intro t fr l ht hl
    rw [← (Prod.mk.inj (Option.some.inj ht)).1, hl]
  have hunblock : ∀ {t : Sched P X} {q : P} {l : List P × P},
      (t.thread_unblock q).map (fun s => (s, [])) = some (s', freed) →
      t.kept = l → s'.kept = l := by
    intro t q l ht hl
    simp only [Sched.thread_unblock] at ht
    split at ht
    · exact hpair ht hl
    · cases ht
  have hblock : ∀ {t : Sched P X} {l : List P × P}, t.thread_block = some (s', freed) →
      t.kept = l → s'.kept = l := fun {t l} ht hl =>
    (Sched.schedule_kept (s := t.setStatus t.running_thread (some .blocked)) ht).trans hl
  have hexit : s.thread_exit = some (s', freed) →
      s'.kept = (s.all_list.erase s.running_thread, s.initial_thread) :=
    fun ht => Sched.schedule_kept (s := { s.setStatus s.running_thread (some .dying) with
      all_list := s.all_list.erase s.running_thread }) ht
  cases e with
  | create p =>
      exact hpair hs rfl
  | unblock p =>
      exact hunblock hs rfl
  | block =>
      exact hblock hs rfl
  | yield =>
      exact Sched.thread_yield_kept hs
  | exit =>
      exact hexit hs
  | sema_down x =>
      simp only [sched_section, Sched.sema_down_pass] at hs
      split at hs
      · exact hpair hs rfl
      · exact hblock hs rfl
  | sema_up x =>
      simp only [sched_section, Sched.sema_up_call] at hs
      split at hs
      · exact hpair hs rfl
      · exact hunblock hs rfl
  | tick =>
      simp only [sched_section, Sched.thread_tick] at hs
      split at hs
      · exact Eq.trans (Sched.thread_yield_kept hs) rfl
      · exact hpair hs rfl
  | idle =>
      exact hpair hs rfl

/-- The creation of a thread on the page `p`. -/
def created (p : P) : SchedEvent P X × List P → Nat
  | (.create q, _) => [q].count p
  | _ => 0

/-- A section creates a thread on a page, or frees the page of a thread that was live, or neither. -/
theorem SchedInv.count_step (h : SchedInv s) {e : SchedEvent P X} (he : sched_enabled s e)
    (hs : sched_section s e = some (s', freed)) (hp : p ≠ s.initial_thread) :
    created p (e, freed) + s.all_list.count p = freed.count p + s'.all_list.count p := by
  have hall : s'.all_list = sched_all_list s e := congrArg Prod.fst (sched_section_kept hs)
  rw [hall, (h.section_spec he).freed s' freed hs]
  cases e with
  | create q =>
      simp only [created, sched_freed, sched_all_list, List.count_append, List.count_nil]
      omega
  | exit =>
      by_cases hpr : p = s.running_thread
      · have hpos := List.count_pos_iff.2 h.run_free.2.2
        subst hpr
        simp only [created, sched_freed, sched_all_list, if_pos hp, List.count_erase_self,
          List.count_singleton_self]
        omega
      · have hnot : (sched_freed s (.exit : SchedEvent P X)).count p = 0 := by
          simp only [sched_freed]
          split <;> simp [Ne.symm hpr]
        rw [hnot]
        simp only [created, sched_all_list, List.count_erase_of_ne hpr]
  | unblock | block | yield | sema_down | sema_up | tick | idle =>
      simp [created, sched_freed, sched_all_list]

/-! ## Runs -/

omit [DecidableEq P] [DecidableEq X] in
theorem SchedInv.init (hready : s.fifo_ready_list = []) (hall : s.all_list = [s.initial_thread])
    (hidle : s.idle_thread = none) (hrun : s.running_thread = s.initial_thread)
    (hwait : ∀ x, (s.sema x).waiters = [])
    (hstatus : ∀ p st, s.status p = some st ↔ p = s.initial_thread ∧ st = .running) :
    SchedInv s where
  ready_status p hp := by simp [hready] at hp
  ready_mem p hp _ := by
    have hst := ((hstatus p _).1 hp).2
    cases hst
  ready_nodup := by simp [hready]
  waiting x p hp := by simp [hwait x] at hp
  waiters_nodup x := by simp [hwait x]
  waiters_one x y p hp := by simp [hwait x] at hp
  all_nodup := by simp [hall]
  all_mem p := by
    rw [hall, List.mem_singleton]
    constructor
    · rintro rfl
      exact ⟨.running, (hstatus _ _).2 ⟨rfl, rfl⟩, by decide⟩
    · rintro ⟨st, hst, _⟩
      exact ((hstatus p st).1 hst).1
  idle_live p hp := by simp [hidle] at hp
  initial_kept := by
    rw [(hstatus s.initial_thread .running).2 ⟨rfl, rfl⟩]
    simp
  running := (hstatus _ _).2 ⟨hrun, rfl⟩
  only p hp := ((hstatus p _).1 hp).1.trans hrun.symm
  dead p hp := ((hstatus p _).1 hp).1

theorem sched_reachable_inv (h : (schedSystem P X).Reachable s) : SchedInv s := by
  refine h.invariant (fun s h0 => ?_) (fun s l t hinv hst => ?_)
  · rcases h0 with ⟨hready, hall, hidle, hrun, hwait, hstatus⟩
    refine SchedInv.init hready hall hidle hrun hwait fun p st => ?_
    rw [hstatus]
    by_cases hp : p = s.initial_thread
    · simp [hp, eq_comm]
    · simp [hp]
  · exact (hinv.section_spec hst.1).inv t l.2 hst.2

/-- Over a run, a page other than the initial thread's is freed once for each thread created on it,
but for one that is still live; the initial thread's page is not freed. -/
theorem sched_run_count {s₀ : Sched P X} {ls : List (SchedEvent P X × List P)}
    (h : (schedSystem P X).Exec s₀ ls s) (h0 : (schedSystem P X).Reachable s₀) :
    s.initial_thread = s₀.initial_thread ∧
      (∀ p, p ≠ s₀.initial_thread →
        (ls.map (created p)).sum + s₀.all_list.count p =
          (ls.flatMap Prod.snd).count p + s.all_list.count p) ∧
      (ls.flatMap Prod.snd).count s₀.initial_thread = 0 := by
  induction h with
  | nil =>
      simp
  | @snoc t u ls l hex hst ih =>
      rcases ih with ⟨hinit, hcount, hzero⟩
      rcases l with ⟨e, freed⟩
      have hinv := sched_reachable_inv (h0.exec hex)
      have hkept := congrArg Prod.snd (sched_section_kept hst.2)
      refine ⟨hkept.trans hinit, fun p hp => ?_, ?_⟩
      · have hstep := hinv.count_step hst.1 hst.2 (by rwa [hinit])
        have hbefore := hcount p hp
        simp only [List.map_append, List.map_cons, List.map_nil, List.sum_append, List.sum_cons,
          List.sum_nil, List.flatMap_append, List.flatMap_cons, List.flatMap_nil, List.append_nil,
          List.count_append] at hstep hbefore ⊢
        omega
      · have hfreed : freed.count s₀.initial_thread = 0 := by
          rw [(hinv.section_spec hst.1).freed u freed hst.2, ← hinit]
          cases e with
          | exit =>
              simp only [sched_freed]
              split
              · rename_i hne
                simp [hne]
              · rfl
          | create | unblock | block | yield | sema_down | sema_up | tick | idle =>
              rfl
        simp only [List.flatMap_append, List.flatMap_cons, List.flatMap_nil, List.append_nil,
          List.count_append, hzero, hfreed]

/-- What holds in every state of every run. -/
structure SchedGood (s : Sched P X) : Prop where
  one_running : s.status s.running_thread = some .running ∧
    ∀ p, s.status p = some .running → p = s.running_thread
  ready_once : ∀ p, s.status p = some .ready → s.idle_thread ≠ some p →
    s.fifo_ready_list.count p = 1
  queue_ready : ∀ p, p ∈ s.fifo_ready_list → s.status p = some .ready
  waiters_blocked : ∀ x p, p ∈ (s.sema x).waiters → s.status p = some .blocked
  /-- A thread is on at most one of the lists, and there at most once. -/
  elem_once : ∀ p, s.fifo_ready_list.count p ≤ 1 ∧ ∀ x, (s.sema x).waiters.count p ≤ 1 ∧
    (p ∈ (s.sema x).waiters → p ∉ s.fifo_ready_list ∧ ∀ y, p ∈ (s.sema y).waiters → x = y)
  all_live : s.all_list.Nodup ∧
    ∀ p, p ∈ s.all_list ↔ ∃ st, s.status p = some st ∧ st ≠ .dying
  next_ready : ∀ p, s.next_thread_to_run.1 = some p →
    s.status p = some .ready ∨ s.idle_thread = some p

omit [DecidableEq X] in
theorem SchedInv.good (h : SchedInv s) : SchedGood s where
  one_running := ⟨h.running, h.only⟩
  ready_once p hp hidle := List.count_eq_one_of_mem h.ready_nodup (h.ready_mem p hp hidle)
  queue_ready := h.ready_status
  waiters_blocked x p hp := (h.waiting x p hp).1
  elem_once p := by
    refine ⟨List.nodup_iff_count_le_one.1 h.ready_nodup p, fun x =>
      ⟨List.nodup_iff_count_le_one.1 (h.waiters_nodup x) p, fun hx => ⟨fun hready => ?_,
        fun y hy => h.waiters_one x y p hx hy⟩⟩⟩
    have hst := h.ready_status p hready
    rw [(h.waiting x p hx).1] at hst
    cases hst
  all_live := ⟨h.all_nodup, h.all_mem⟩
  next_ready p hp := by
    cases hready : s.fifo_ready_list with
    | nil =>
        simp only [Sched.next_thread_to_run, hready] at hp
        exact Or.inr hp
    | cons q qs =>
        simp only [Sched.next_thread_to_run, hready, Option.some.injEq] at hp
        exact Or.inl (h.ready_status p (by simp [hready, hp]))

/-- Of every run from the end of `thread_init`: its last state is good.  Of every section that may
follow: once there is an idle thread no assertion fails in it; a thread that takes over was ready or
is the idle thread; and it frees the page of the thread that ran if that thread ended and is not
the initial one, with another thread on the CPU, and else no page.  So each page but the initial
thread's has been freed once for each thread that was created on it and has ended. -/
theorem sched_runs_good {s₀ : Sched P X} {ls : List (SchedEvent P X × List P)}
    (h0 : (schedSystem P X).init s₀) (h : (schedSystem P X).Exec s₀ ls s) :
    SchedGood s ∧
    (∀ e, sched_enabled s e →
      (s.idle_thread ≠ none → ∃ r, sched_section s e = some r) ∧
      ∀ s' freed, sched_section s e = some (s', freed) →
        (s'.running_thread ≠ s.running_thread →
          s.status s'.running_thread = some .ready ∨ s.idle_thread = some s'.running_thread) ∧
        freed = sched_freed s e ∧ (freed ≠ [] → s'.running_thread ≠ s.running_thread)) ∧
    (∀ p, p ≠ s₀.initial_thread →
      (ls.map (created p)).sum = (ls.flatMap Prod.snd).count p + s.all_list.count p) ∧
    (ls.flatMap Prod.snd).count s₀.initial_thread = 0 := by
  have hinv := sched_reachable_inv ((System.Reachable.init h0).exec h)
  have hcount := sched_run_count h (System.Reachable.init h0)
  refine ⟨hinv.good, fun e he => ?_, fun p hp => ?_, ?_⟩
  · have hspec := hinv.section_spec he
    refine ⟨hspec.ok, fun s' freed hs => ⟨hspec.chosen s' freed hs, hspec.freed s' freed hs, ?_⟩⟩
    intro hne
    rw [hspec.freed s' freed hs] at hne
    cases e with
    | exit =>
        exact (hinv.exit he).2 s' freed hs
    | create | unblock | block | yield | sema_down | sema_up | tick | idle =>
        exact absurd rfl hne
  · have hp' := hcount.2.1 p hp
    rw [h0.2.1, List.count_singleton] at hp'
    simpa [Ne.symm hp] using hp'
  · exact hcount.2.2

/-- A section of a run, with its label. -/
theorem sched_step {l : SchedEvent P X × List P} (he : sched_enabled s l.1)
    (hs : sched_section s l.1 = some (s', l.2)) : (schedSystem P X).step s l s' := ⟨he, hs⟩

end

/-- The initial thread starts the idle thread and another one and ends; the other one ends too, and
its page is freed. -/
theorem sched_runs_good_three : ∃ (s₀ s : Sched (Fin 3) Unit)
    (ls : List (SchedEvent (Fin 3) Unit × List (Fin 3))),
    (schedSystem (Fin 3) Unit).init s₀ ∧ (schedSystem (Fin 3) Unit).Exec s₀ ls s ∧
      ls.flatMap Prod.snd = [2] ∧ SchedGood s := by
  let s₀ : Sched (Fin 3) Unit :=
    ⟨Function.update (fun _ => none) 0 (some .running), [], [0], none, 0, 0, 0, fun _ => ⟨0, []⟩⟩
  have h0 : (schedSystem (Fin 3) Unit).init s₀ := ⟨rfl, rfl, rfl, rfl, fun _ => rfl, rfl⟩
  have hwait : ∀ p : Fin 3, p ∉ ([] : List (Fin 3)) := fun p => List.not_mem_nil
  have hnone : (none : Option (Fin 3)) ≠ some 0 := by decide
  have hzero : some (1 : Fin 3) ≠ some 0 := by decide
  have htwo : some (1 : Fin 3) ≠ some 2 := by decide
  have h1 := (System.Exec.nil s₀).snoc (sched_step (l := (.create 1, [])) rfl rfl)
  have h2 := h1.snoc (sched_step (l := (.unblock 1, [])) ⟨rfl, fun _ => hwait 1⟩ rfl)
  have h3 := h2.snoc (sched_step (l := (.sema_down (), [])) hnone rfl)
  have h4 := h3.snoc (sched_step (l := (.idle, [])) rfl rfl)
  have h5 := h4.snoc (sched_step (l := (.sema_up (), [])) trivial rfl)
  have h6 := h5.snoc (sched_step (l := (.block, [])) trivial rfl)
  have h7 := h6.snoc (sched_step (l := (.create 2, [])) rfl rfl)
  have h8 := h7.snoc (sched_step (l := (.unblock 2, [])) ⟨rfl, fun _ => hwait 2⟩ rfl)
  have h9 := h8.snoc (sched_step (l := (.exit, [])) hzero rfl)
  have h10 := h9.snoc (sched_step (l := (.exit, [2])) htwo rfl)
  exact ⟨s₀, _, _, h0, h10, rfl, (sched_runs_good h0 h10).1⟩

end Berk162
