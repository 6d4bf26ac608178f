import Berk162.Lib.Transition
import Berk162.Threads.Synch

/-!
# Console — the console lock of `lib/kernel/console.c`

`acquire_console` and `release_console` make the console lock recursive: a thread that has the lock
counts in `console_lock_depth` how often it is in.  Any number of threads call the two in matched
pairs, nested as deep as they like, in the way `putbuf`, `vprintf`, `puts` and `putchar` do.  A step
is one access of one thread to shared memory, or one section with interrupts off; interrupt handlers
call the two at any point.  The runs begin where `console_init` returns and end before
`console_panic` begins.
-/

namespace Berk162

/-- Where a thread is. -/
inductive ConsolePc
  /-- In neither of the functions. -/
  | outside
  /-- `acquire_console`: before `lock_held_by_current_thread`. -/
  | held_test
  /-- `acquire_console`: before `console_lock_depth++` reads. -/
  | deepen
  /-- `acquire_console`: before `console_lock_depth++`, which has read `depth`, writes. -/
  | deepen_write (depth : Int)
  /-- `lock_acquire`: before the assertion that the thread does not have the lock. -/
  | lock_test
  /-- `sema_down`: before the loop. -/
  | down
  /-- `sema_down`: blocked. -/
  | asleep
  /-- `sema_down`: unblocked but yet to test again. -/
  | woken
  /-- `lock_acquire`: before it sets `holder`. -/
  | got
  /-- `release_console`: before it reads `console_lock_depth`. -/
  | depth_test
  /-- `release_console`: before `console_lock_depth--` reads. -/
  | lessen
  /-- `release_console`: before `console_lock_depth--`, which has read `depth`, writes. -/
  | lessen_write (depth : Int)
  /-- `lock_release`: before the assertion that the thread has the lock. -/
  | unlock_test
  /-- `lock_release`: before it clears `holder`. -/
  | clear
  /-- `lock_release`: before `sema_up`. -/
  | up
  /-- An assertion failed. -/
  | panicked
  deriving DecidableEq

/-- The static variables of the console and where its threads are.  `console_lock_depth` is an `int`,
which no nesting that fits on a kernel stack makes overflow.  `nest` counts for each thread
the sections that it is in: those that an `acquire_console` has begun, with its last access, and
that no `release_console` has ended. -/
structure ConsoleState (T : Type) where
  console_lock : Lock T
  use_console_lock : Bool
  console_lock_depth : Int
  pc : T → ConsolePc
  nest : T → Nat

variable {T : Type} [DecidableEq T]

namespace ConsoleState

variable (s : ConsoleState T) (t : T)

@[simps] def setPc (p : ConsolePc) : ConsoleState T := { s with pc := Function.update s.pc t p }

@[simps] def setNest (n : Nat) : ConsoleState T := { s with nest := Function.update s.nest t n }

@[simps] def setDepth (d : Int) : ConsoleState T := { s with console_lock_depth := d }

@[simps] def setHolder (u : Option T) : ConsoleState T :=
  { s with console_lock := { s.console_lock with holder := u } }

@[simps] def setSema (sema : Semaphore T) : ConsoleState T :=
  { s with console_lock := { s.console_lock with semaphore := sema } }

/-- The first test of both functions. -/
def enters (intr_context : Bool) : Bool := !intr_context && s.use_console_lock

/-- `lock_held_by_current_thread (&console_lock)` -/
def held : Bool := s.console_lock.holder = some t

/-- A pass of the loop of `sema_down`. -/
def down : ConsoleState T :=
  let r := sema_down s.console_lock.semaphore t
  (s.setSema r.1).setPc t (if r.2 then .got else .asleep)

/-- `thread_unblock`. -/
def unblock : Option T → ConsoleState T
  | none => s
  | some u => s.setPc u .woken

/-- `sema_up`. -/
def up : ConsoleState T :=
  let r := sema_up s.console_lock.semaphore
  ((s.setSema r.1).unblock r.2).setPc t .outside

end ConsoleState

inductive ConsoleEvent
  | handler_acquire
  | handler_release
  | call_acquire
  | held_test
  | deepen
  | deepen_write
  | lock_test
  | down
  | set_holder
  | call_release
  | depth_test
  | lessen
  | lessen_write
  | unlock_test
  | clear
  | up

inductive ConsoleStep : ConsoleState T → T × ConsoleEvent → ConsoleState T → Prop
  /-- An interrupt handler runs while `t` is the current thread. -/
  | handler_acquire {s : ConsoleState T} {t : T} :
      ConsoleStep s (t, .handler_acquire) (if s.enters true then s.setPc t .held_test else s)
  | handler_release {s : ConsoleState T} {t : T} :
      ConsoleStep s (t, .handler_release) (if s.enters true then s.setPc t .depth_test else s)
  | call_acquire {s : ConsoleState T} {t : T} : s.pc t = .outside →
      ConsoleStep s (t, .call_acquire) (if s.enters false then s.setPc t .held_test else s)
  | held_test {s : ConsoleState T} {t : T} : s.pc t = .held_test →
      ConsoleStep s (t, .held_test) (s.setPc t (if s.held t then .deepen else .lock_test))
  | deepen {s : ConsoleState T} {t : T} : s.pc t = .deepen →
      ConsoleStep s (t, .deepen) (s.setPc t (.deepen_write s.console_lock_depth))
  | deepen_write {s : ConsoleState T} {t : T} {depth : Int} : s.pc t = .deepen_write depth →
      ConsoleStep s (t, .deepen_write)
        (((s.setDepth (depth + 1)).setNest t (s.nest t + 1)).setPc t .outside)
  | lock_test {s : ConsoleState T} {t : T} : s.pc t = .lock_test →
      ConsoleStep s (t, .lock_test) (s.setPc t (if s.held t then .panicked else .down))
  | down {s : ConsoleState T} {t : T} : s.pc t = .down ∨ s.pc t = .woken →
      ConsoleStep s (t, .down) (s.down t)
  | set_holder {s : ConsoleState T} {t : T} : s.pc t = .got →
      ConsoleStep s (t, .set_holder)
        (((s.setHolder (some t)).setNest t (s.nest t + 1)).setPc t .outside)
  /-- Only a thread that is in a section leaves one. -/
  | call_release {s : ConsoleState T} {t : T} : s.pc t = .outside → 0 < s.nest t →
      ConsoleStep s (t, .call_release) (if s.enters false then s.setPc t .depth_test else s)
  | depth_test {s : ConsoleState T} {t : T} : s.pc t = .depth_test →
      ConsoleStep s (t, .depth_test)
        (s.setPc t (if s.console_lock_depth > 0 then .lessen else .unlock_test))
  | lessen {s : ConsoleState T} {t : T} : s.pc t = .lessen →
      ConsoleStep s (t, .lessen) (s.setPc t (.lessen_write s.console_lock_depth))
  | lessen_write {s : ConsoleState T} {t : T} {depth : Int} : s.pc t = .lessen_write depth →
      ConsoleStep s (t, .lessen_write)
        (((s.setDepth (depth - 1)).setNest t (s.nest t - 1)).setPc t .outside)
  | unlock_test {s : ConsoleState T} {t : T} : s.pc t = .unlock_test →
      ConsoleStep s (t, .unlock_test) (s.setPc t (if s.held t then .clear else .panicked))
  | clear {s : ConsoleState T} {t : T} : s.pc t = .clear →
      ConsoleStep s (t, .clear) (((s.setHolder none).setNest t (s.nest t - 1)).setPc t .up)
  | up {s : ConsoleState T} {t : T} : s.pc t = .up → ConsoleStep s (t, .up) (s.up t)

/-- The console as `console_init` leaves it. -/
def console_init : ConsoleState T := ⟨lock_init, true, 0, fun _ => .outside, fun _ => 0⟩

/-- The runs of the console lock used by the threads `T`, after `console_init`. -/
def consoleSystem (T : Type) [DecidableEq T] : System (ConsoleState T) (T × ConsoleEvent) where
  init s := s = console_init
  step := ConsoleStep

/-! ## The invariant -/

/-- What a thread that is in `n` sections may find at `p`, with the depth `d`. -/
def ConsolePc.Fits (n : Nat) (d : Int) : ConsolePc → Prop
  | .outside | .held_test => True
  | .lock_test | .down | .asleep | .woken | .got | .up => n = 0
  | .deepen | .depth_test => 0 < n
  | .deepen_write depth => 0 < n ∧ depth = d
  | .lessen => 2 ≤ n
  | .lessen_write depth => 2 ≤ n ∧ depth = d
  | .unlock_test | .clear => n = 1
  | .panicked => False

/-- The thread has taken the unit of the semaphore and not yet given it back, but is in no
section. -/
def ConsolePc.HasUnit (p : ConsolePc) : Prop := p = .got ∨ p = .up

/-- `o` is the thread that has the unit of the semaphore. -/
structure ConsoleInv (s : ConsoleState T) (o : Option T) : Prop where
  enabled : s.use_console_lock = true
  asleep : ∀ u ∈ s.console_lock.semaphore.waiters, s.pc u = .asleep
  nodup : s.console_lock.semaphore.waiters.Nodup
  value : s.console_lock.semaphore.value = if o = none then 1 else 0
  owner : ∀ t, 0 < s.nest t ∨ (s.pc t).HasUnit ↔ o = some t
  holder : ∀ t, s.console_lock.holder = some t ↔ 0 < s.nest t
  depth : ∀ t, o = some t → s.console_lock_depth = ((s.nest t - 1 : Nat) : Int)
  depth_free : o = none → s.console_lock_depth = 0
  fits : ∀ t, (s.pc t).Fits (s.nest t) s.console_lock_depth

variable {s s' : ConsoleState T} {t u : T} {o : Option T} {p : ConsolePc}

/-- A thread outside of all sections does not see the depth. -/
theorem ConsolePc.Fits.of_zero {d : Int} (h : p.Fits 0 d) (d' : Int) : p.Fits 0 d' := by
  cases p with
  | deepen_write depth => exact absurd h.1 (Nat.lt_irrefl 0)
  | lessen_write depth => exact absurd h.1 (by decide)
  | _ => exact h

theorem not_hasUnit_asleep : ¬ ConsolePc.asleep.HasUnit := by
  simp [ConsolePc.HasUnit]

namespace ConsoleInv

omit [DecidableEq T] in
/-- Without the unit a thread is in no section. -/
theorem nest_of_not_owner (h : ConsoleInv s o) (hu : o ≠ some u) :
    s.nest u = 0 ∧ ¬ (s.pc u).HasUnit := by
  have hnone := mt (h.owner u).1 hu
  rw [not_or] at hnone
  exact ⟨Nat.eq_zero_of_not_pos hnone.1, hnone.2⟩

/-- A step that touches where the thread is, and the queue. -/
theorem requeue (h : ConsoleInv s o) {ws : List T}
    (hqueue : ∀ u ∈ ws, Function.update s.pc t p u = .asleep) (hnodup : ws.Nodup)
    (hunit : p.HasUnit ↔ (s.pc t).HasUnit) (hfits : p.Fits (s.nest t) s.console_lock_depth) :
    ConsoleInv ((s.setSema ⟨s.console_lock.semaphore.value, ws⟩).setPc t p) o where
  enabled := h.enabled
  asleep := hqueue
  nodup := hnodup
  value := h.value
  owner u := by
    rw [← h.owner u, ConsoleState.setPc_nest, ConsoleState.setPc_pc]
    by_cases hu : u = t
    · rw [hu, Function.update_self, hunit]
      rfl
    · rw [Function.update_of_ne hu]
      rfl
  holder := h.holder
  depth := h.depth
  depth_free := h.depth_free
  fits u := by
    rw [ConsoleState.setPc_pc, ConsoleState.setPc_nest, ConsoleState.setPc_console_lock_depth]
    by_cases hu : u = t
    · rw [hu, Function.update_self]
      exact hfits
    · rw [Function.update_of_ne hu]
      exact h.fits u

/-- A step that touches nothing but where the thread is. -/
theorem setPc (h : ConsoleInv s o) (hsleep : s.pc t ≠ .asleep)
    (hunit : p.HasUnit ↔ (s.pc t).HasUnit) (hfits : p.Fits (s.nest t) s.console_lock_depth) :
    ConsoleInv (s.setPc t p) o := by
  refine h.requeue (fun u hu => ?_) h.nodup hunit hfits
  have hpc := h.asleep u hu
  have hne : u ≠ t := by
    rintro rfl
    exact hsleep hpc
  rw [Function.update_of_ne hne, hpc]

/-- A step of the thread that has the unit: it enters or leaves a section, and keeps the unit. -/
theorem move (h : ConsoleInv s (some t)) {n : Nat} {d : Int} {holder : Option T}
    (hsleep : s.pc t ≠ .asleep) (hholder : holder = if 0 < n then some t else none)
    (hunit : 0 < n ∨ p.HasUnit) (hd : d = ((n - 1 : Nat) : Int)) (hfits : p.Fits n d) :
    ConsoleInv ⟨⟨holder, s.console_lock.semaphore⟩, s.use_console_lock, d,
      Function.update s.pc t p, Function.update s.nest t n⟩ (some t) where
  enabled := h.enabled
  asleep u hu := by
    have hpc := h.asleep u hu
    have hne : u ≠ t := by
      rintro rfl
      exact hsleep hpc
    exact (Function.update_of_ne hne _ _).trans hpc
  nodup := h.nodup
  value := h.value
  owner u := by
    dsimp only
    by_cases hu : u = t
    · rw [hu, Function.update_self, Function.update_self]
      exact iff_of_true hunit rfl
    · rw [Function.update_of_ne hu, Function.update_of_ne hu]
      exact h.owner u
  holder u := by
    dsimp only
    by_cases hu : u = t
    · rw [hu, Function.update_self, hholder]
      split
      · rename_i hpos
        exact iff_of_true rfl hpos
      · rename_i hzero
        exact iff_of_false (by simp) hzero
    · have hne : some t ≠ some u := fun heq => hu (Option.some.inj heq).symm
      rw [Function.update_of_ne hu, (h.nest_of_not_owner hne).1, hholder]
      refine iff_of_false ?_ (Nat.lt_irrefl 0)
      split
      · exact hne
      · simp
  depth u hu := by
    cases hu
    dsimp only
    rw [hd, Function.update_self]
  depth_free hnone := absurd hnone (by simp)
  fits u := by
    dsimp only
    by_cases hu : u = t
    · rw [hu, Function.update_self, Function.update_self]
      exact hfits
    · have hne : some t ≠ some u := fun heq => hu (Option.some.inj heq).symm
      have hother := h.fits u
      rw [(h.nest_of_not_owner hne).1] at hother
      rw [Function.update_of_ne hu, Function.update_of_ne hu, (h.nest_of_not_owner hne).1]
      exact hother.of_zero d

/-- Taking the unit. -/
theorem take (h : ConsoleInv s none) (hnest : s.nest t = 0)
    (hwaits : t ∉ s.console_lock.semaphore.waiters) :
    ConsoleInv ((s.setSema ⟨0, s.console_lock.semaphore.waiters⟩).setPc t .got) (some t) where
  enabled := h.enabled
  asleep u hu := by
    have hne : u ≠ t := fun heq => hwaits (heq ▸ hu)
    exact (Function.update_of_ne hne _ _).trans (h.asleep u hu)
  nodup := h.nodup
  value := rfl
  owner u := by
    rw [ConsoleState.setPc_nest, ConsoleState.setPc_pc]
    by_cases hu : u = t
    · rw [hu, Function.update_self]
      exact iff_of_true (.inr (.inl rfl)) rfl
    · rw [Function.update_of_ne hu]
      have hnone := h.owner u
      exact iff_of_false (fun hunit => by cases hnone.1 hunit)
        fun heq => hu (Option.some.inj heq).symm
  holder := h.holder
  depth u hu := by
    cases hu
    rw [ConsoleState.setPc_nest]
    exact (h.depth_free rfl).trans (by rw [ConsoleState.setSema_nest, hnest]; rfl)
  depth_free hnone := absurd hnone (by simp)
  fits u := by
    rw [ConsoleState.setPc_pc, ConsoleState.setPc_nest]
    by_cases hu : u = t
    · rw [hu, Function.update_self]
      exact hnest
    · rw [Function.update_of_ne hu]
      exact h.fits u

/-- Going to the end of the queue. -/
theorem wait (h : ConsoleInv s o) (hnest : s.nest t = 0)
    (hwaits : t ∉ s.console_lock.semaphore.waiters) (hunit : ¬ (s.pc t).HasUnit) :
    ConsoleInv ((s.setSema ⟨s.console_lock.semaphore.value,
      s.console_lock.semaphore.waiters ++ [t]⟩).setPc t .asleep) o := by
  refine h.requeue (fun u hu => ?_) ?_ (iff_of_false not_hasUnit_asleep hunit) hnest
  · by_cases hut : u = t
    · rw [hut, Function.update_self]
    · rw [List.mem_append, List.mem_singleton] at hu
      rw [Function.update_of_ne hut, h.asleep u (hu.resolve_right hut)]
  · exact h.nodup.append (List.nodup_singleton t) (List.disjoint_singleton.2 hwaits)

/-- Taking the first thread off the queue. -/
theorem pop (h : ConsoleInv s o) {w : T} {ws : List T}
    (hw : s.console_lock.semaphore.waiters = w :: ws) :
    ConsoleInv ((s.setSema ⟨s.console_lock.semaphore.value, ws⟩).setPc w .woken) o := by
  have hnodup := h.nodup
  rw [hw, List.nodup_cons] at hnodup
  have hpc : s.pc w = .asleep := h.asleep w (hw ▸ List.mem_cons_self)
  have hfits := h.fits w
  rw [hpc] at hfits
  refine h.requeue (fun u hu => ?_) hnodup.2 ?_ hfits
  · have hne : u ≠ w := fun heq => hnodup.1 (heq ▸ hu)
    rw [Function.update_of_ne hne, h.asleep u (hw ▸ List.mem_cons_of_mem w hu)]
  · rw [hpc]
    exact iff_of_false (by simp [ConsolePc.HasUnit]) not_hasUnit_asleep

/-- Giving the unit back. -/
theorem give_back (h : ConsoleInv s (some t)) (hpc : s.pc t = .up) :
    ConsoleInv ((s.setSema ⟨1, s.console_lock.semaphore.waiters⟩).setPc t .outside) none := by
  have hnest : s.nest t = 0 := by
    have hfits := h.fits t
    rwa [hpc] at hfits
  have hothers : ∀ u, u ≠ t → s.nest u = 0 ∧ ¬ (s.pc u).HasUnit := fun u hu =>
    h.nest_of_not_owner fun heq => hu (Option.some.inj heq).symm
  exact {
    enabled := h.enabled
    asleep := fun u hu => by
      have hasleep := h.asleep u hu
      have hne : u ≠ t := by
        rintro rfl
        rw [hpc] at hasleep
        cases hasleep
      exact (Function.update_of_ne hne _ _).trans hasleep
    nodup := h.nodup
    value := rfl
    owner := fun u => by
      rw [ConsoleState.setPc_nest, ConsoleState.setPc_pc]
      refine iff_of_false ?_ (by simp)
      by_cases hu : u = t
      · rw [hu, Function.update_self]
        rintro (hpos | hunit)
        · exact hpos.ne' hnest
        · exact absurd hunit (by simp [ConsolePc.HasUnit])
      · rw [Function.update_of_ne hu]
        rintro (hpos | hunit)
        · exact hpos.ne' (hothers u hu).1
        · exact (hothers u hu).2 hunit
    holder := h.holder
    depth := fun u hu => absurd hu (by simp)
    depth_free := fun _ => (h.depth t rfl).trans (by rw [hnest]; rfl)
    fits := fun u => by
      rw [ConsoleState.setPc_pc, ConsoleState.setPc_nest]
      by_cases hu : u = t
      · rw [hu, Function.update_self]
        trivial
      · rw [Function.update_of_ne hu]
        exact h.fits u }

/-- A pass of the loop of `sema_down`: with the unit there, or to the end of the queue. -/
theorem down (h : ConsoleInv s o) (hpc : s.pc t = .down ∨ s.pc t = .woken) :
    ∃ o', ConsoleInv (s.down t) o' := by
  have hnest : s.nest t = 0 := by
    have hfits := h.fits t
    rcases hpc with hpc | hpc <;> rwa [hpc] at hfits
  have hsleep : s.pc t ≠ .asleep := by
    rcases hpc with hpc | hpc <;> rw [hpc] <;> decide
  have hwaits : t ∉ s.console_lock.semaphore.waiters := fun hmem => hsleep (h.asleep t hmem)
  have hvalue := h.value
  cases o with
  | none =>
      have hdown := sema_down_succ t (hvalue.trans (if_pos rfl))
      refine ⟨some t, ?_⟩
      rw [ConsoleState.down, hdown]
      exact h.take hnest hwaits
  | some v =>
      have hdown := sema_down_zero t (hvalue.trans (if_neg (by simp)))
      refine ⟨some v, ?_⟩
      rw [ConsoleState.down, hdown]
      have hunit : ¬ (s.pc t).HasUnit := by
        rcases hpc with hpc | hpc <;> rw [hpc] <;> simp [ConsolePc.HasUnit]
      have hwait := h.wait hnest hwaits hunit
      rw [hvalue, if_neg (by simp)] at hwait
      exact hwait

/-- `sema_up` by the thread that has the unit. -/
theorem up (h : ConsoleInv s o) (hpc : s.pc t = .up) : ConsoleInv (s.up t) none := by
  have ho : o = some t := (h.owner t).1 (.inr (.inr hpc))
  subst ho
  have hvalue : s.console_lock.semaphore.value = 0 := h.value.trans (if_neg (by simp))
  rw [ConsoleState.up, sema_up, hvalue]
  cases hw : s.console_lock.semaphore.waiters with
  | nil =>
      have hback := h.give_back hpc
      rw [hw] at hback
      exact hback
  | cons w ws =>
      -- the first in the queue sleeps, so it is not `t`
      have hasleep : s.pc w = .asleep := h.asleep w (hw ▸ List.mem_cons_self)
      have hne : t ≠ w := by
        rintro rfl
        rw [hpc] at hasleep
        cases hasleep
      have hpop := h.pop hw
      have hpc' : ((s.setSema ⟨s.console_lock.semaphore.value, ws⟩).setPc w .woken).pc t = .up := by
        rw [ConsoleState.setPc_pc, Function.update_of_ne hne]
        exact hpc
      exact hpop.give_back hpc'

omit [DecidableEq T] in
theorem owner_of_nest (h : ConsoleInv s o) (hpos : 0 < s.nest t) : o = some t :=
  (h.owner t).1 (.inl hpos)

/-- Every step keeps the invariant. -/
theorem step {e : ConsoleEvent} (h : ConsoleInv s o) (hst : ConsoleStep s (t, e) s') :
    ∃ o', ConsoleInv s' o' := by
  have hfits := h.fits t
  have henters : s.enters false = true := h.enabled
  have hheld : s.held t = true ↔ 0 < s.nest t := by
    rw [ConsoleState.held, decide_eq_true_iff, h.holder t]
  cases hst with
  | handler_acquire | handler_release => exact ⟨o, h⟩
  | call_acquire hpc =>
      rw [if_pos henters]
      refine ⟨o, h.setPc ?_ ?_ trivial⟩
      · simp [hpc]
      · simp [hpc, ConsolePc.HasUnit]
  | held_test hpc =>
      refine ⟨o, h.setPc (by simp [hpc]) ?_ ?_⟩
      · rw [hpc]
        split <;> simp [ConsolePc.HasUnit]
      · split
        · rename_i hmine
          exact hheld.1 hmine
        · rename_i hother
          exact Nat.eq_zero_of_not_pos (mt hheld.2 hother)
  | deepen hpc =>
      rw [hpc] at hfits
      exact ⟨o, h.setPc (by simp [hpc]) (by simp [hpc, ConsolePc.HasUnit]) ⟨hfits, rfl⟩⟩
  | @deepen_write _ depth hpc =>
      rw [hpc] at hfits
      obtain ⟨hpos, hdepth⟩ := hfits
      have ho := h.owner_of_nest hpos
      subst ho
      have hd := h.depth t rfl
      refine ⟨some t, h.move (by simp [hpc]) ?_ (.inl (Nat.succ_pos _)) ?_ trivial⟩
      · rw [if_pos (Nat.succ_pos _)]
        exact (h.holder t).2 hpos
      · rw [ConsoleState.setNest_console_lock_depth, ConsoleState.setDepth_console_lock_depth,
          hdepth, hd]
        omega
  | lock_test hpc =>
      rw [hpc] at hfits
      have hnot : ¬ s.held t = true := fun hmine => (hheld.1 hmine).ne' hfits
      rw [if_neg hnot]
      exact ⟨o, h.setPc (by simp [hpc]) (by simp [hpc, ConsolePc.HasUnit]) hfits⟩
  | down hpc => exact h.down hpc
  | set_holder hpc =>
      rw [hpc] at hfits
      have ho : o = some t := (h.owner t).1 (.inr (.inl hpc))
      subst ho
      have hd := h.depth t rfl
      have hnest : s.nest t = 0 := hfits
      refine ⟨some t, h.move (by simp [hpc]) ?_ (.inl (Nat.succ_pos _)) ?_ trivial⟩
      · rw [if_pos (Nat.succ_pos _)]
      · rw [ConsoleState.setNest_console_lock_depth, ConsoleState.setHolder_console_lock_depth, hd,
          hnest]
  | call_release hpc hpos =>
      rw [if_pos henters]
      exact ⟨o, h.setPc (by simp [hpc]) (by simp [hpc, ConsolePc.HasUnit]) hpos⟩
  | depth_test hpc =>
      rw [hpc] at hfits
      have hpos : 0 < s.nest t := hfits
      have hd := h.depth t (h.owner_of_nest hpos)
      refine ⟨o, h.setPc (by simp [hpc]) ?_ ?_⟩
      · rw [hpc]
        split <;> simp [ConsolePc.HasUnit]
      · -- the depth that is read is one less than the sections that `t` is in
        split
        · rename_i hdeep
          show 2 ≤ s.nest t
          omega
        · rename_i hflat
          show s.nest t = 1
          omega
  | lessen hpc =>
      rw [hpc] at hfits
      exact ⟨o, h.setPc (by simp [hpc]) (by simp [hpc, ConsolePc.HasUnit]) ⟨hfits, rfl⟩⟩
  | @lessen_write _ depth hpc =>
      rw [hpc] at hfits
      obtain ⟨htwo, hdepth⟩ := hfits
      have hpos : 0 < s.nest t := by omega
      have hleft : 0 < s.nest t - 1 := by omega
      have ho := h.owner_of_nest hpos
      subst ho
      have hd := h.depth t rfl
      refine ⟨some t, h.move (by simp [hpc]) ?_ (.inl hleft) ?_ trivial⟩
      · rw [if_pos hleft]
        exact (h.holder t).2 hpos
      · rw [ConsoleState.setNest_console_lock_depth, ConsoleState.setDepth_console_lock_depth,
          hdepth, hd]
        omega
  | unlock_test hpc =>
      rw [hpc] at hfits
      have hone : s.nest t = 1 := hfits
      have hmine : s.held t = true := hheld.2 (hone ▸ Nat.one_pos)
      rw [if_pos hmine]
      exact ⟨o, h.setPc (by simp [hpc]) (by simp [hpc, ConsolePc.HasUnit]) hfits⟩
  | clear hpc =>
      rw [hpc] at hfits
      have hone : s.nest t = 1 := hfits
      have ho := h.owner_of_nest (hone ▸ Nat.one_pos : 0 < s.nest t)
      subst ho
      have hd := h.depth t rfl
      have hzero : s.nest t - 1 = 0 := by omega
      refine ⟨some t, h.move (by simp [hpc]) ?_ (.inr (.inr rfl)) ?_ hzero⟩
      · rw [hzero]
        rfl
      · rw [ConsoleState.setNest_console_lock_depth, ConsoleState.setHolder_console_lock_depth, hd,
          hzero]
  | up hpc => exact ⟨none, h.up hpc⟩

end ConsoleInv

/-! ## Runs -/

theorem consoleInv_of_reachable (h : (consoleSystem T).Reachable s) : ∃ o, ConsoleInv s o := by
  refine h.invariant (I := fun s => ∃ o, ConsoleInv s o) (fun s hs => ?_)
    fun s l s' ⟨o, hinv⟩ hst => hinv.step hst
  subst hs
  refine ⟨none, rfl, ?_, ?_, rfl, ?_, ?_, ?_, fun _ => rfl, fun _ => trivial⟩
  all_goals simp [console_init, lock_init, ConsolePc.HasUnit]

/-- `sema_up` ends no section. -/
theorem ConsoleState.up_nest : (s.up t).nest = s.nest := by
  rw [ConsoleState.up]
  cases (sema_up s.console_lock.semaphore).2 <;> rfl

/-- A step is of one thread, which leaves one section at most. -/
theorem ConsoleStep.nest {e : ConsoleEvent} (hst : ConsoleStep s (t, e) s') :
    (∀ u, u ≠ t → s'.nest u = s.nest u) ∧ s.nest t ≤ s'.nest t + 1 := by
  cases hst with
  | handler_acquire | handler_release | call_acquire | call_release =>
      split <;> exact ⟨fun _ _ => rfl, Nat.le_succ _⟩
  | deepen_write | set_holder | lessen_write | clear =>
      refine ⟨fun u hu => Function.update_of_ne hu _ _, ?_⟩
      simp only [ConsoleState.setPc_nest, ConsoleState.setNest_nest, Function.update_self]
      omega
  | up =>
      rw [ConsoleState.up_nest]
      exact ⟨fun _ _ => rfl, Nat.le_succ _⟩
  | _ => exact ⟨fun _ _ => rfl, Nat.le_succ _⟩

namespace ConsoleInv

omit [DecidableEq T] in
theorem unit_iff (h : ConsoleInv s o) :
    s.console_lock.semaphore.value = 1 ↔ ∀ t, s.nest t = 0 ∧ ¬ (s.pc t).HasUnit := by
  rw [h.value]
  cases o with
  | none =>
      exact iff_of_true (if_pos rfl) fun t => h.nest_of_not_owner (by simp)
  | some v =>
      refine iff_of_false (by simp) fun hall => ?_
      obtain ⟨hzero, hunit⟩ := hall v
      rcases (h.owner v).2 rfl with hpos | hhas
      · exact hpos.ne' hzero
      · exact hunit hhas

/-- Of the steps that end a section, one ends the outermost. -/
theorem cleared {e : ConsoleEvent} (h : ConsoleInv s o) (hst : ConsoleStep s (t, e) s')
    (hone : s.nest t = 1) (hzero : s'.nest t = 0) :
    s'.console_lock.holder = none ∧ s'.pc t = .up := by
  have hsame : s'.nest t ≠ s.nest t := by
    rw [hone, hzero]
    exact Nat.zero_ne_one
  cases hst with
  | clear hpc => exact ⟨rfl, Function.update_self _ _ _⟩
  | handler_acquire | handler_release | call_acquire | call_release =>
      refine absurd ?_ hsame
      split <;> rfl
  | deepen_write | set_holder =>
      rw [ConsoleState.setPc_nest, ConsoleState.setNest_nest, Function.update_self] at hzero
      exact absurd hzero (Nat.succ_ne_zero _)
  | lessen_write hpc =>
      have hfits := h.fits t
      rw [hpc, hone] at hfits
      exact absurd hfits.1 (by decide)
  | up => exact absurd (congrFun ConsoleState.up_nest t) hsame
  | _ => exact absurd rfl hsame

theorem given_back (h : ConsoleInv s o) (hst : ConsoleStep s (t, .up) s') :
    s'.console_lock.semaphore = ⟨1, s.console_lock.semaphore.waiters.tail⟩ ∧
      ∀ w ∈ s.console_lock.semaphore.waiters.head?, s'.pc w = .woken := by
  cases hst with
  | up hpc =>
      have ho : o = some t := (h.owner t).1 (.inr (.inr hpc))
      have hvalue : s.console_lock.semaphore.value = 0 := by
        rw [h.value, ho, if_neg (by simp)]
      rw [ConsoleState.up, sema_up, hvalue]
      cases hw : s.console_lock.semaphore.waiters with
      | nil => exact ⟨rfl, fun w hmem => absurd hmem (by simp)⟩
      | cons w ws =>
          refine ⟨rfl, fun u hmem => ?_⟩
          obtain rfl : w = u := by simpa using hmem
          -- the first in the queue sleeps, so it is not `t`
          have hasleep : s.pc w = .asleep := h.asleep w (hw ▸ List.mem_cons_self)
          have hne : w ≠ t := by
            rintro rfl
            rw [hpc] at hasleep
            cases hasleep
          exact (Function.update_of_ne hne _ _).trans (Function.update_self _ _ _)

end ConsoleInv

/-- What holds of a state, and of each step from it. -/
structure RecursiveLock (s : ConsoleState T) : Prop where
  one_inside : ∀ t u, 0 < s.nest t → 0 < s.nest u → t = u
  holder_inside : ∀ t, s.console_lock.holder = some t ↔ 0 < s.nest t
  depth_held : ∀ t, s.console_lock.holder = some t → s.console_lock_depth = (s.nest t : Int) - 1
  depth_free : s.console_lock.holder = none → s.console_lock_depth = 0
  /-- The unit of the semaphore is there only while nobody holds the lock. -/
  unit_free : 0 < s.console_lock.semaphore.value → s.console_lock.holder = none
  /-- It is there unless a thread is in a section or has the unit on its way in or out. -/
  unit_back : s.console_lock.semaphore.value = 1 ↔ ∀ t, s.nest t = 0 ∧ ¬ (s.pc t).HasUnit
  asserted : ∀ t, s.pc t ≠ .panicked
  /-- The holder loses the lock by ending the outermost of its sections, and by nothing else. -/
  released : ∀ t e s', ConsoleStep s (t, e) s' →
    ((∃ u, s.console_lock.holder = some u ∧ s'.console_lock.holder ≠ some u) ↔
      s.nest t = 1 ∧ s'.nest t = 0)
  /-- The end of the outermost section leaves no holder, and `sema_up` is next. -/
  cleared : ∀ t e s', ConsoleStep s (t, e) s' → s.nest t = 1 → s'.nest t = 0 →
    s'.console_lock.holder = none ∧ s'.pc t = .up
  /-- `sema_up` puts the unit back and wakes the thread that has waited longest. -/
  given_back : ∀ t s', ConsoleStep s (t, .up) s' →
    s'.console_lock.semaphore = ⟨1, s.console_lock.semaphore.waiters.tail⟩ ∧
      ∀ w ∈ s.console_lock.semaphore.waiters.head?, s'.pc w = .woken

/-- In every interleaving of any number of threads only one is in a section, and it holds the lock;
the depth is the number of its sections less one, and 0 while the lock is free; the end of the
outermost section, and nothing else, frees the lock. -/
theorem console_lock_nests (h : (consoleSystem T).Reachable s) : RecursiveLock s := by
  obtain ⟨o, hinv⟩ := consoleInv_of_reachable h
  have hfree : s.console_lock.holder = none → s.console_lock_depth = 0 := by
    intro hnone
    cases o with
    | none => exact hinv.depth_free rfl
    | some t =>
        have hzero : s.nest t = 0 := by
          apply Nat.eq_zero_of_not_pos
          rw [← hinv.holder t, hnone]
          simp
        rw [hinv.depth t rfl, hzero]
        rfl
  refine ⟨fun t u ht hu => ?_, hinv.holder, fun t ht => ?_, hfree, fun hval => ?_, hinv.unit_iff,
    fun t hpc => ?_, fun t e s' hst => ?_, fun t e s' hst => hinv.cleared hst,
    fun t s' hst => hinv.given_back hst⟩
  · exact Option.some.inj ((hinv.owner_of_nest ht).symm.trans (hinv.owner_of_nest hu))
  · have hpos := (hinv.holder t).1 ht
    rw [hinv.depth t (hinv.owner_of_nest hpos)]
    omega
  · have hnone : s.console_lock.holder = none := by
      rw [Option.eq_none_iff_forall_ne_some]
      intro t ht
      have ho := hinv.owner_of_nest ((hinv.holder t).1 ht)
      rw [hinv.value, ho, if_neg (by simp)] at hval
      exact Nat.lt_irrefl 0 hval
    exact hnone
  · have hfits := hinv.fits t
    rw [hpc] at hfits
    exact hfits
  · obtain ⟨o', hinv'⟩ := hinv.step hst
    obtain ⟨hothers, hone⟩ := hst.nest
    constructor
    · rintro ⟨u, hu, hlost⟩
      rw [hinv.holder] at hu
      rw [ne_eq, hinv'.holder] at hlost
      have hut : u = t := by
        by_contra hne
        rw [hothers u hne] at hlost
        exact hlost hu
      subst hut
      omega
    · rintro ⟨hnest, hnest'⟩
      refine ⟨t, ?_, ?_⟩
      · rw [hinv.holder, hnest]
        exact Nat.one_pos
      · rw [ne_eq, hinv'.holder, hnest']
        exact Nat.lt_irrefl 0

/-- Thread 0 acquires the lock twice and releases it twice, and thread 1, which has waited for it
since, is the holder. -/
theorem console_lock_nests_twice : ∃ s : ConsoleState Nat,
    s.console_lock.holder = some 1 ∧ s.nest 0 = 0 ∧ s.nest 1 = 1 ∧
      (consoleSystem Nat).Reachable s ∧ RecursiveLock s := by
  have h₀ : (consoleSystem Nat).Reachable console_init :=
    .init rfl
  -- thread 0 gets the lock
  have h₁ := h₀.step (.call_acquire (t := 0) rfl)
  have h₂ := h₁.step (.held_test (t := 0) rfl)
  have h₃ := h₂.step (.lock_test (t := 0) rfl)
  have h₄ := h₃.step (.down (t := 0) (.inl rfl))
  have h₅ := h₄.step (.set_holder (t := 0) rfl)
  -- thread 1 waits for it
  have h₆ := h₅.step (.call_acquire (t := 1) rfl)
  have h₇ := h₆.step (.held_test (t := 1) rfl)
  have h₈ := h₇.step (.lock_test (t := 1) rfl)
  have h₉ := h₈.step (.down (t := 1) (.inl rfl))
  -- the inner section of thread 0
  have h₁₀ := h₉.step (.call_acquire (t := 0) rfl)
  have h₁₁ := h₁₀.step (.held_test (t := 0) rfl)
  have h₁₂ := h₁₁.step (.deepen (t := 0) rfl)
  have h₁₃ := h₁₂.step (.deepen_write (t := 0) rfl)
  have h₁₄ := h₁₃.step (.call_release (t := 0) rfl (by decide))
  have h₁₅ := h₁₄.step (.depth_test (t := 0) rfl)
  have h₁₆ := h₁₅.step (.lessen (t := 0) rfl)
  have h₁₇ := h₁₆.step (.lessen_write (t := 0) rfl)
  -- the outermost release, which wakes thread 1
  have h₁₈ := h₁₇.step (.call_release (t := 0) rfl (by decide))
  have h₁₉ := h₁₈.step (.depth_test (t := 0) rfl)
  have h₂₀ := h₁₉.step (.unlock_test (t := 0) rfl)
  have h₂₁ := h₂₀.step (.clear (t := 0) rfl)
  have h₂₂ := h₂₁.step (.up (t := 0) rfl)
  have h₂₃ := h₂₂.step (.down (t := 1) (.inr rfl))
  have h₂₄ := h₂₃.step (.set_holder (t := 1) rfl)
  exact ⟨_, rfl, rfl, rfl, h₂₄, console_lock_nests h₂₄⟩

end Berk162
