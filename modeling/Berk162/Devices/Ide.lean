import Berk162.Lib.Transition
import Berk162.Threads.Synch

/-!
# Ide — completion interrupts of one channel of `devices/ide.c`

`ide_read` and `ide_write` use the channel in one way: take its lock, issue a command, wait on
`completion_wait` and release the lock.  They differ in when the sector's bytes are moved, which
touches nothing here.  The channel's lock is taken as a lock: a thread gets past `lock_acquire`
when nobody holds it.  An interrupt may arrive at any time; if a command is outstanding it is that
command's completion, and otherwise it is spurious.
-/

namespace Berk162

/-- `struct channel`, as far as the completion of commands goes. -/
structure Channel (T : Type) where
  lock : Option T
  expecting_interrupt : Bool
  completion_wait : Semaphore T

/-- Where a thread is in `ide_read` or `ide_write`. -/
inductive IdePlace
  /-- Before `lock_acquire`, or in neither function. -/
  | out
  /-- With the lock, in `select_sector`. -/
  | selected
  /-- In `issue_pio_command`, between its two writes. -/
  | armed
  /-- The command is written. -/
  | issued
  /-- Blocked in `sema_down`. -/
  | asleep
  /-- Unblocked in `sema_down`, yet to run. -/
  | woken
  /-- Past `sema_down`. -/
  | completed
  deriving DecidableEq, Repr

/-- A channel, whether a command written to it has had no interrupt since, and its threads. -/
structure IdeState (T : Type) where
  channel : Channel T
  busy : Bool
  place : T → IdePlace

variable {T : Type} [DecidableEq T]

/-! ## The sections -/

def IdeState.setPlace (s : IdeState T) (t : T) (p : IdePlace) : IdeState T :=
  { s with place := Function.update s.place t p }

/-- `lock_acquire`. -/
def ide_lock (s : IdeState T) (t : T) : IdeState T :=
  { s.setPlace t .selected with channel := { s.channel with lock := some t } }

/-- The first write of `issue_pio_command`. -/
def expect_interrupt (s : IdeState T) (t : T) : IdeState T :=
  { s.setPlace t .armed with channel := { s.channel with expecting_interrupt := true } }

/-- The second write of `issue_pio_command`: the command goes to the disk. -/
def write_command (s : IdeState T) (t : T) : IdeState T :=
  { s.setPlace t .issued with busy := true }

/-- A pass of the loop of `sema_down (&c->completion_wait)`. -/
def wait_completion (s : IdeState T) (t : T) : IdeState T :=
  let r := sema_down s.channel.completion_wait t
  { s.setPlace t (if r.2 then .completed else .asleep) with
    channel := { s.channel with completion_wait := r.1 } }

/-- `lock_release`. -/
def ide_release (s : IdeState T) (t : T) : IdeState T :=
  { s.setPlace t .out with channel := { s.channel with lock := none } }

/-- `interrupt_handler` for the channel's interrupt. -/
def interrupt_handler (s : IdeState T) : IdeState T :=
  if s.channel.expecting_interrupt then
    let r := sema_up s.channel.completion_wait
    let s' := { s with busy := false, channel := { s.channel with completion_wait := r.1 } }
    match r.2 with
    | none => s'
    | some u => s'.setPlace u .woken
  else { s with busy := false }

/-! ## Runs -/

inductive IdeEvent (T : Type)
  | lock (t : T)
  | expect (t : T)
  | command (t : T)
  | down (t : T)
  | release (t : T)
  | interrupt

inductive IdeStep : IdeState T → IdeEvent T → IdeState T → Prop
  | lock {s : IdeState T} {t : T} : s.place t = .out → s.channel.lock = none →
      IdeStep s (.lock t) (ide_lock s t)
  | expect {s : IdeState T} {t : T} : s.place t = .selected →
      IdeStep s (.expect t) (expect_interrupt s t)
  | command {s : IdeState T} {t : T} : s.place t = .armed →
      IdeStep s (.command t) (write_command s t)
  | down {s : IdeState T} {t : T} : s.place t = .issued ∨ s.place t = .woken →
      IdeStep s (.down t) (wait_completion s t)
  | release {s : IdeState T} {t : T} : s.place t = .completed →
      IdeStep s (.release t) (ide_release s t)
  | interrupt {s : IdeState T} : IdeStep s .interrupt (interrupt_handler s)

/-- The runs of a channel after `ide_init`.  The flag is set by then on a channel with a disk: the
command that identified the disk has set it, and nothing clears it. -/
def ideSystem (T : Type) [DecidableEq T] : System (IdeState T) (IdeEvent T) where
  init s := s.channel.lock = none ∧ s.channel.completion_wait = sema_init 0 ∧ s.busy = false ∧
    ∀ t, s.place t = .out
  step := IdeStep

/-! ## What the channel's comments come to -/

/-- `expecting_interrupt` is set only from the time a command is being issued to its interrupt. -/
def FlagMatched (s : IdeState T) : Prop :=
  s.channel.expecting_interrupt = true → s.busy = true ∨ ∃ t, s.place t = .armed

/-- The semaphore is down while the lock is free, and a thread past its `sema_down` has seen the
interrupt of its own command. -/
def WaitMatched (s : IdeState T) : Prop :=
  (s.channel.lock = none → s.channel.completion_wait.value = 0) ∧
    ∀ t, s.place t = .completed → s.busy = false

/-- No interrupt is handled as expected when no command is outstanding. -/
def quiet (s : IdeState T) : IdeEvent T → Prop
  | .interrupt => s.channel.expecting_interrupt = true → s.busy = true
  | _ => True

/-- No interrupt is handled as expected. -/
def silent (s : IdeState T) : IdeEvent T → Prop
  | .interrupt => s.channel.expecting_interrupt = false
  | _ => True

/-- How the disk and the semaphore stand for the thread `t` that has the lock. -/
def Own (t : T) : IdePlace → Bool → Semaphore T → Prop
  | .out, _, _ => False
  | .selected, busy, sema => busy = false ∧ sema = ⟨0, []⟩
  | .armed, busy, sema => busy = false ∧ sema = ⟨0, []⟩
  | .issued, busy, sema => (busy = true ∧ sema = ⟨0, []⟩) ∨ (busy = false ∧ sema = ⟨1, []⟩)
  | .asleep, busy, sema => busy = true ∧ sema = ⟨0, [t]⟩
  | .woken, busy, sema => busy = false ∧ sema = ⟨1, []⟩
  | .completed, busy, sema => busy = false ∧ sema = ⟨0, []⟩

/-- The channel in a run without unmatched interrupts. -/
inductive IdeInv (s : IdeState T) : Prop
  | free : s.channel.lock = none → (∀ t, s.place t = .out) → s.busy = false →
      s.channel.completion_wait = ⟨0, []⟩ → IdeInv s
  | held (t : T) : s.channel.lock = some t → (∀ u, u ≠ t → s.place u = .out) →
      Own t (s.place t) s.busy s.channel.completion_wait →
      (s.place t ≠ .selected → s.channel.expecting_interrupt = true) → IdeInv s

variable {s s' : IdeState T} {t : T} {e : IdeEvent T}

/-- A thread that is in a transfer has the lock. -/
theorem IdeInv.owner (h : IdeInv s) (ht : s.place t ≠ .out) :
    s.channel.lock = some t ∧ (∀ u, u ≠ t → s.place u = .out) ∧
      Own t (s.place t) s.busy s.channel.completion_wait ∧
      (s.place t ≠ .selected → s.channel.expecting_interrupt = true) := by
  cases h with
  | free _ hout _ _ =>
      exact absurd (hout t) ht
  | held u hlock hothers hown hflag =>
      have hut : t = u := by
        by_contra hne
        exact ht (hothers t hne)
      subst hut
      exact ⟨hlock, hothers, hown, hflag⟩

theorem others_setPlace {p : IdePlace} (h : ∀ u, u ≠ t → s.place u = .out) :
    ∀ u, u ≠ t → (s.setPlace t p).place u = .out := by
  intro u hu
  simp [IdeState.setPlace, hu, h u hu]

theorem interrupt_inv (h : IdeInv s) (hq : s.channel.expecting_interrupt = true → s.busy = true) :
    IdeInv (interrupt_handler s) := by
  cases hexp : s.channel.expecting_interrupt with
  | false =>
      have hs : interrupt_handler s = { s with busy := false } := by simp [interrupt_handler, hexp]
      have hidle : s.busy = false := by
        cases h with
        | free _ _ hbusy _ =>
            exact hbusy
        | held t _ _ hown hflag =>
            -- only a thread that has yet to issue its command finds the flag clear
            have hp : s.place t = .selected := by
              by_contra hne
              have hset := hflag hne
              rw [hexp] at hset
              cases hset
            rw [hp] at hown
            exact hown.1
      have hsame : ({ s with busy := false } : IdeState T) = s := by
        rw [← hidle]
      rw [hs, hsame]
      exact h
  | true =>
      have hbusy := hq hexp
      cases h with
      | free _ _ hidle _ =>
          rw [hbusy] at hidle
          cases hidle
      | held t hlock hothers hown _ =>
          rw [hbusy] at hown
          cases hp : s.place t with
          | issued =>
              rw [hp] at hown
              rcases hown with ⟨_, hsema⟩ | ⟨hidle, _⟩
              · refine IdeInv.held t ?_ ?_ ?_ ?_ <;>
                  simp [interrupt_handler, hexp, hsema, sema_up, hlock, hp, Own]
                exact hothers
              · cases hidle
          | asleep =>
              rw [hp] at hown
              rcases hown with ⟨_, hsema⟩
              refine IdeInv.held t ?_ ?_ ?_ ?_ <;>
                simp [interrupt_handler, hexp, hsema, sema_up, hlock, Own, IdeState.setPlace]
              intro u hu
              simp [hu, hothers u hu]
          | _ =>
              rw [hp] at hown
              simp [Own] at hown

/-- One step of a run without unmatched interrupts. -/
theorem IdeInv.step (h : IdeInv s) (hstep : IdeStep s e s') (hq : quiet s e) : IdeInv s' := by
  cases hstep with
  | @lock t ht hfree =>
      cases h with
      | free _ hout hbusy hsema =>
          refine IdeInv.held t rfl (others_setPlace fun u _ => hout u) ?_ ?_
          · simp [ide_lock, IdeState.setPlace, Own, hbusy, hsema]
          · intro hne
            exact absurd (by simp [ide_lock, IdeState.setPlace]) hne
      | held u hlock _ _ _ =>
          rw [hfree] at hlock
          cases hlock
  | @expect t ht =>
      rcases h.owner (t := t) (by simp [ht]) with ⟨hlock, hothers, hown, _⟩
      rw [ht] at hown
      refine IdeInv.held t hlock (others_setPlace hothers) ?_ fun _ => rfl
      simpa [expect_interrupt, IdeState.setPlace, Own] using hown
  | @command t ht =>
      rcases h.owner (t := t) (by simp [ht]) with ⟨hlock, hothers, hown, hflag⟩
      rw [ht] at hown
      refine IdeInv.held t hlock (others_setPlace hothers) ?_ fun _ => hflag (by simp [ht])
      simpa [write_command, IdeState.setPlace, Own] using hown.2
  | @down t ht =>
      have hne : s.place t ≠ .out := by rcases ht with ht | ht <;> simp [ht]
      have hns : s.place t ≠ .selected := by rcases ht with ht | ht <;> simp [ht]
      rcases h.owner hne with ⟨hlock, hothers, hown, hflag⟩
      refine IdeInv.held t hlock (others_setPlace hothers) ?_ fun _ => hflag hns
      have hcases : (s.busy = true ∧ s.channel.completion_wait = ⟨0, []⟩) ∨
          (s.busy = false ∧ s.channel.completion_wait = ⟨1, []⟩) := by
        rcases ht with ht | ht
        · rwa [ht] at hown
        · rw [ht] at hown
          exact Or.inr hown
      rcases hcases with ⟨hbusy, hsema⟩ | ⟨hbusy, hsema⟩
      · simp [wait_completion, IdeState.setPlace, sema_down, hsema, hbusy, Own]
      · simp [wait_completion, IdeState.setPlace, sema_down, hsema, hbusy, Own]
  | @release t ht =>
      rcases h.owner (t := t) (by simp [ht]) with ⟨hlock, hothers, hown, _⟩
      rw [ht] at hown
      refine IdeInv.free rfl (fun u => ?_) hown.1 hown.2
      by_cases hut : u = t
      · subst hut
        simp [ide_release, IdeState.setPlace]
      · simp [ide_release, IdeState.setPlace, hut, hothers u hut]
  | interrupt =>
      exact interrupt_inv h hq

theorem IdeInv.init (h0 : (ideSystem T).init s) : IdeInv s :=
  IdeInv.free h0.1 h0.2.2.2 h0.2.2.1 h0.2.1

omit [DecidableEq T] in
theorem IdeInv.wait_matched (h : IdeInv s) : WaitMatched s := by
  cases h with
  | free _ hout _ hsema =>
      refine ⟨fun _ => by rw [hsema], fun t ht => ?_⟩
      rw [hout t] at ht
      cases ht
  | held t hlock hothers hown _ =>
      refine ⟨fun hfree => ?_, fun u hu => ?_⟩
      · rw [hfree] at hlock
        cases hlock
      · have hut : u = t := by
          by_contra hne
          rw [hothers u hne] at hu
          cases hu
        rw [← hut, hu] at hown
        exact hown.1

/-- Nothing resets the flag: once a command has completed, it stays set with no command
outstanding. -/
theorem IdeInv.flag_stays (h : IdeInv s) (hbusy : s.busy = true) :
    ¬ FlagMatched (interrupt_handler s) := by
  cases h with
  | free _ _ hidle _ =>
      rw [hbusy] at hidle
      cases hidle
  | held t hlock hothers hown hflag =>
      rw [hbusy] at hown
      have hexp : s.channel.expecting_interrupt = true := by
        refine hflag fun hsel => ?_
        rw [hsel] at hown
        cases hown.1
      have harmed : ∀ u, s.place u ≠ .armed := by
        intro u hu
        by_cases hut : u = t
        · rw [← hut, hu] at hown
          cases hown.1
        · rw [hothers u hut] at hu
          cases hu
      intro hmatched
      have hafter : (interrupt_handler s).channel.expecting_interrupt = true ∧
          (interrupt_handler s).busy = false := by
        simp only [interrupt_handler, hexp, if_true]
        split <;> exact ⟨rfl, rfl⟩
      rcases hmatched hafter.1 with hb | ⟨u, hu⟩
      · rw [hafter.2] at hb
        cases hb
      · refine harmed u ?_
        simp only [interrupt_handler, hexp, if_true] at hu
        split at hu
        · exact hu
        · rename_i v _
          by_cases huv : u = v
          · simp [IdeState.setPlace, huv] at hu
          · simpa [IdeState.setPlace, huv] using hu

/-- A thread that is not about to write its command moves on. -/
theorem FlagMatched.move {p : IdePlace} (h : s.busy = true ∨ ∃ u, s.place u = .armed)
    (ht : s.place t ≠ .armed) :
    s.busy = true ∨ ∃ u, Function.update s.place t p u = .armed := by
  rcases h with hb | ⟨u, hu⟩
  · exact Or.inl hb
  · have hut : u ≠ t := fun heq => ht (heq ▸ hu)
    exact Or.inr ⟨u, by simp [hut, hu]⟩

/-- A step of a run in which no interrupt is handled as expected. -/
theorem FlagMatched.step (h : FlagMatched s) (hstep : IdeStep s e s') (hs : silent s e) :
    FlagMatched s' := by
  intro hexp
  cases hstep with
  | @lock t ht _ =>
      exact FlagMatched.move (h hexp) (by simp [ht])
  | @expect t ht =>
      exact Or.inr ⟨t, by simp [expect_interrupt, IdeState.setPlace]⟩
  | @command t ht =>
      exact Or.inl rfl
  | @down t ht =>
      exact FlagMatched.move (h hexp) (by rcases ht with ht | ht <;> simp [ht])
  | @release t ht =>
      exact FlagMatched.move (h hexp) (by simp [ht])
  | interrupt =>
      have hclear : s.channel.expecting_interrupt = false := hs
      simp [interrupt_handler, hclear] at hexp

/-! ## Runs without unmatched interrupts -/

theorem quiet_run_inv {s₀ : IdeState T} {es : List (IdeEvent T)} (h0 : (ideSystem T).init s₀)
    (hrun : ((ideSystem T).restrict quiet).Exec s₀ es s) : IdeInv s :=
  hrun.invariant (fun _ _ _ hi hst => hi.step hst.1 hst.2) (IdeInv.init h0)

/-- A run in which no interrupt is handled as expected is one without unmatched interrupts. -/
theorem silent_run_quiet {s₀ : IdeState T} {es : List (IdeEvent T)}
    (hrun : ((ideSystem T).restrict silent).Exec s₀ es s) :
    ((ideSystem T).restrict quiet).Exec s₀ es s := by
  induction hrun with
  | nil =>
      exact System.Exec.nil _
  | @snoc s u es e _ hst ih =>
      refine System.Exec.snoc ih ⟨hst.1, ?_⟩
      cases e with
      | interrupt =>
          intro hexp
          have hclear : s.channel.expecting_interrupt = false := hst.2
          rw [hexp] at hclear
          cases hclear
      | _ =>
          trivial

theorem silent_run_flag {s₀ : IdeState T} {es : List (IdeEvent T)} (hflag : FlagMatched s₀)
    (hrun : ((ideSystem T).restrict silent).Exec s₀ es s) : FlagMatched s :=
  hrun.invariant (fun _ _ _ hi hst => hi.step hst.1 hst.2) hflag

/-- A flag that is set while nothing is under way is unmatched. -/
theorem not_flagMatched_init {s₀ : IdeState T} (h0 : (ideSystem T).init s₀)
    (hset : s₀.channel.expecting_interrupt = true) : ¬ FlagMatched s₀ := by
  intro hflag
  rcases hflag hset with hbusy | ⟨t, ht⟩
  · rw [h0.2.2.1] at hbusy
    cases hbusy
  · rw [h0.2.2.2 t] at ht
    cases ht

/-- The flag and the semaphore are matched in every run that starts with the flag clear and in which
no interrupt is handled as expected; the semaphore is matched in every run in which an interrupt is
handled as expected only while a command is outstanding, but there the flag is unmatched from the
first such interrupt on.  On a channel with a disk the flag is set at the start, and unmatched. -/
theorem ide_runs_matched {s₀ s : IdeState T} {es : List (IdeEvent T)}
    (h0 : (ideSystem T).init s₀) :
    (s₀.channel.expecting_interrupt = false → ((ideSystem T).restrict silent).Exec s₀ es s →
      FlagMatched s ∧ WaitMatched s) ∧
    (((ideSystem T).restrict quiet).Exec s₀ es s →
      WaitMatched s ∧ (s.busy = true → ¬ FlagMatched (interrupt_handler s))) ∧
    (s₀.channel.expecting_interrupt = true → ¬ FlagMatched s₀) := by
  refine ⟨?_, ?_, not_flagMatched_init h0⟩
  · intro hclear hrun
    have hflag : FlagMatched s₀ := by
      intro hexp
      rw [hclear] at hexp
      cases hexp
    exact ⟨silent_run_flag hflag hrun, (quiet_run_inv h0 (silent_run_quiet hrun)).wait_matched⟩
  · intro hrun
    have hinv := quiet_run_inv h0 hrun
    exact ⟨hinv.wait_matched, hinv.flag_stays⟩

/-- A channel before its first command. -/
def ide_fresh : IdeState (Fin 2) := ⟨⟨none, false, sema_init 0⟩, false, fun _ => .out⟩

/-- One transfer up to its `sema_down`, and one that completes. -/
theorem ide_runs_matched_one :
    (∃ s, ((ideSystem (Fin 2)).restrict silent).Exec ide_fresh
      [.lock 0, .expect 0, .command 0, .down 0] s ∧ FlagMatched s ∧ WaitMatched s) ∧
    ∃ s, ((ideSystem (Fin 2)).restrict quiet).Exec ide_fresh
      [.lock 0, .expect 0, .command 0, .interrupt, .down 0] s ∧ WaitMatched s := by
  have hinit : (ideSystem (Fin 2)).init ide_fresh := ⟨rfl, rfl, rfl, fun _ => rfl⟩
  have h3 : ∀ P : IdeState (Fin 2) → IdeEvent (Fin 2) → Prop, (∀ s t, P s (.lock t)) →
      (∀ s t, P s (.expect t)) → (∀ s t, P s (.command t)) →
      ((ideSystem (Fin 2)).restrict P).Exec ide_fresh [.lock 0, .expect 0, .command 0]
        (write_command (expect_interrupt (ide_lock ide_fresh 0) 0) 0) := by
    intro P hl he hc
    have h1 := (System.Exec.nil (M := (ideSystem (Fin 2)).restrict P) ide_fresh).snoc
      ⟨IdeStep.lock (t := 0) rfl rfl, hl _ _⟩
    have h2 := h1.snoc ⟨IdeStep.expect (t := 0) rfl, he _ _⟩
    exact h2.snoc ⟨IdeStep.command (t := 0) rfl, hc _ _⟩
  have hs := (h3 silent (fun _ _ => trivial) (fun _ _ => trivial) fun _ _ => trivial).snoc
    ⟨IdeStep.down (t := 0) (Or.inl rfl), trivial⟩
  have hq := ((h3 quiet (fun _ _ => trivial) (fun _ _ => trivial) fun _ _ => trivial).snoc
    ⟨IdeStep.interrupt, fun _ => rfl⟩).snoc ⟨IdeStep.down (t := 0) (Or.inl rfl), trivial⟩
  exact ⟨⟨_, hs, (ide_runs_matched hinit).1 rfl hs⟩, ⟨_, hq, ((ide_runs_matched hinit).2.1 hq).1⟩⟩

/-- After the first transfer the flag is set with nothing outstanding; a spurious interrupt then
leaves a unit on the semaphore of the free channel; and the next transfer gets past its `sema_down`
before its own command has completed. -/
theorem surplus_unit : ∃ s₁ s₂ s₃, (ideSystem (Fin 2)).Reachable s₁ ∧ ¬ FlagMatched s₁ ∧
    (ideSystem (Fin 2)).Reachable s₂ ∧ s₂.channel.lock = none ∧
    s₂.channel.completion_wait.value = 1 ∧
    (ideSystem (Fin 2)).Reachable s₃ ∧ s₃.place 1 = .completed ∧ s₃.busy = true := by
  have h0 : (ideSystem (Fin 2)).Reachable ide_fresh :=
    System.Reachable.init ⟨rfl, rfl, rfl, fun _ => rfl⟩
  have h1 := h0.step (IdeStep.lock (t := 0) rfl rfl)
  have h2 := h1.step (IdeStep.expect (t := 0) rfl)
  have h3 := h2.step (IdeStep.command (t := 0) rfl)
  have h4 := h3.step IdeStep.interrupt
  have h5 := h4.step (IdeStep.down (t := 0) (Or.inl rfl))
  have h6 := h5.step (IdeStep.release (t := 0) rfl)
  have h7 := h6.step IdeStep.interrupt
  have h8 := h7.step (IdeStep.lock (t := 1) rfl rfl)
  have h9 := h8.step (IdeStep.expect (t := 1) rfl)
  have h10 := h9.step (IdeStep.command (t := 1) rfl)
  have h11 := h10.step (IdeStep.down (t := 1) (Or.inl rfl))
  refine ⟨_, _, _, h6, ?_, h7, rfl, by decide, h11, by decide, rfl⟩
  intro hmatched
  rcases hmatched rfl with hb | ⟨u, hu⟩
  · cases hb
  · revert u
    decide

end Berk162
