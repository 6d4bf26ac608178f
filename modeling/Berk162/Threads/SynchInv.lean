import Berk162.Lib.Tally
import Berk162.Threads.SynchSystem

/-!
# SynchInv — semaphores, locks and condition variables between two steps

Three invariants, each about one kind of object and each using those before it.  `Queues` says who
is on the list of a semaphore and why nobody sleeps there while an unclaimed unit exists.  `Locks`
says that a lock's semaphore is down exactly while somebody is between its acquisition and its
release.  `Conds` says of every thread in `cond_wait` whether its signal is still to come, on its
way, or waiting for it on its own semaphore.
-/

namespace Berk162

variable {T S L C : Type}

namespace Pc

/-- The semaphore that the thread `t` is blocked on. -/
def sleepsAt (t : T) : Pc T S L C → Option (SemaId T S L)
  | .asleep g => some (g.target t)
  | _ => none

/-- The semaphore that the thread `t` was unblocked from and has yet to test again. -/
def wokenAt (t : T) : Pc T S L C → Option (SemaId T S L)
  | .woken g => some (g.target t)
  | _ => none

/-- The lock that the thread has acquired or is about to release, without being its holder. -/
def midway : Pc T S L C → Option L
  | .got l => some l
  | .releasing l _ => some l
  | _ => none

@[simp] theorem midway_outside : (outside : Pc T S L C).midway = none := rfl

@[simp] theorem midway_got (l : L) : (got l : Pc T S L C).midway = some l := rfl

@[simp] theorem midway_releasing (l : L) (c : Option C) :
    (releasing l c : Pc T S L C).midway = some l := rfl

/-- The condition that the thread is at work on with its lock held. -/
def busyWith : Pc T S L C → Option C
  | .published c => some c
  | .signalling c _ _ => some c
  | .broadcasting c => some c
  | _ => none

/-- The condition that the thread waits for. -/
def waitsFor : Pc T S L C → Option C
  | .published c => some c
  | .releasing _ c => c
  | .test (.cond c) => some c
  | .asleep (.cond c) => some c
  | .woken (.cond c) => some c
  | _ => none

@[simp] theorem waitsFor_outside : (outside : Pc T S L C).waitsFor = none := rfl

@[simp] theorem waitsFor_published (c : C) : (published c : Pc T S L C).waitsFor = some c := rfl

@[simp] theorem waitsFor_test (c : C) : (test (.cond c) : Pc T S L C).waitsFor = some c := rfl

@[simp] theorem waitsFor_asleep (c : C) : (asleep (.cond c) : Pc T S L C).waitsFor = some c := rfl

@[simp] theorem waitsFor_woken (c : C) : (woken (.cond c) : Pc T S L C).waitsFor = some c := rfl

@[simp] theorem waitsFor_signalling (c : C) (u : T) (all : Bool) :
    (signalling c u all : Pc T S L C).waitsFor = none := rfl

@[simp] theorem waitsFor_broadcasting (c : C) :
    (broadcasting c : Pc T S L C).waitsFor = none := rfl

/-- The waiter that the thread is about to signal. -/
def aim : Pc T S L C → Option T
  | .signalling _ u _ => some u
  | _ => none

end Pc

/-! ## Who sleeps on a semaphore, and why -/

section

variable [Fintype T] [DecidableEq T] [DecidableEq S] [DecidableEq L]

/-- The number of threads unblocked from `x` that have yet to test it again. -/
def SynchState.wokenOn (s : SynchState T S L C) (x : SemaId T S L) : Int :=
  tally (fun w => w == some x) fun t => (s.pc t).wokenAt t

structure Queues (s : SynchState T S L C) : Prop where
  queued : ∀ x t, t ∈ (s.sema x).waiters ↔ (s.pc t).sleepsAt t = some x
  nodup : ∀ x, (s.sema x).waiters.Nodup
  claimed : ∀ x, (s.sema x).waiters ≠ [] → ((s.sema x).value : Int) ≤ s.wokenOn x

variable [DecidableEq C] {s : SynchState T S L C} {t : T} {p : Pc T S L C} {x : SemaId T S L}

omit [Fintype T] [DecidableEq S] [DecidableEq L] [DecidableEq C] in
theorem wokenAt_update (pc : T → Pc T S L C) :
    (fun u => (Function.update pc t p u).wokenAt u) =
      Function.update (fun u => (pc u).wokenAt u) t (p.wokenAt t) := by
  funext u
  by_cases hut : u = t
  · subst hut
    simp
  · simp [hut]

omit [DecidableEq C] in
/-- How the number of unblocked threads changes when one of them moves. -/
theorem wokenOn_setPc (s : SynchState T S L C) (t : T) (p : Pc T S L C) (x : SemaId T S L) :
    (s.setPc t p).wokenOn x = s.wokenOn x - vote ((s.pc t).wokenAt t == some x) +
      vote (p.wokenAt t == some x) := by
  simp only [SynchState.wokenOn, SynchState.setPc_pc, wokenAt_update]
  exact tally_update _ _ _ _

omit [DecidableEq C] in
@[simp] theorem wokenOn_setSema (s : SynchState T S L C) (x y : SemaId T S L) (σ : Semaphore T) :
    (s.setSema x σ).wokenOn y = s.wokenOn y := rfl

omit [DecidableEq C] in
theorem wokenOn_nonneg (s : SynchState T S L C) (x : SemaId T S L) : 0 ≤ s.wokenOn x :=
  tally_nonneg _ _

omit [DecidableEq C] [Fintype T] in
theorem down_block {lockOf : C → L} {g : Goal S L C} (hv : (s.sema (g.target t)).value = 0) :
    s.down lockOf t g = (s.setSema (g.target t)
      ⟨0, (s.sema (g.target t)).waiters ++ [t]⟩).setPc t (.asleep g) := by
  simp [SynchState.down, sema_down_zero t hv]

omit [DecidableEq C] [Fintype T] in
theorem down_take {lockOf : C → L} {g : Goal S L C} {v : Nat}
    (hv : (s.sema (g.target t)).value = v + 1) :
    s.down lockOf t g = (s.setSema (g.target t)
      ⟨v, (s.sema (g.target t)).waiters⟩).setPc t (g.after lockOf) := by
  simp [SynchState.down, sema_down_succ t hv]

omit [Fintype T] [DecidableEq T] [DecidableEq S] [DecidableEq L] [DecidableEq C] in
@[simp] theorem Goal.after_sleepsAt (lockOf : C → L) (g : Goal S L C) (t : T) :
    (g.after lockOf : Pc T S L C).sleepsAt t = none := by
  cases g <;> rfl

omit [Fintype T] [DecidableEq T] [DecidableEq S] [DecidableEq L] [DecidableEq C] in
@[simp] theorem Goal.after_wokenAt (lockOf : C → L) (g : Goal S L C) (t : T) :
    (g.after lockOf : Pc T S L C).wokenAt t = none := by
  cases g <;> rfl

omit [Fintype T] [DecidableEq T] [DecidableEq S] [DecidableEq L] [DecidableEq C] in
theorem Pc.sleepsAt_eq_some (h : p.sleepsAt t = some x) : ∃ g, p = .asleep g ∧ g.target t = x := by
  cases p with
  | asleep g =>
      exact ⟨g, rfl, Option.some.inj h⟩
  | _ =>
      cases h

namespace Queues

omit [DecidableEq C] in
/-- What `sema_up` does: nobody waits, or the first of those who wait is unblocked. -/
theorem up_cases (h : Queues s) (x : SemaId T S L) :
    ((s.sema x).waiters = [] ∧
        s.up x = s.setSema x ⟨((s.sema x).value + 1) % 2 ^ 32, []⟩) ∨
      ∃ u us g, (s.sema x).waiters = u :: us ∧ s.pc u = .asleep g ∧ g.target u = x ∧
        s.up x = (s.setSema x ⟨((s.sema x).value + 1) % 2 ^ 32, us⟩).setPc u (.woken g) := by
  cases hws : (s.sema x).waiters with
  | nil =>
      left
      simp [SynchState.up, sema_up, hws, SynchState.unblock]
  | cons u us =>
      right
      have hu : (s.pc u).sleepsAt u = some x := by
        rw [← h.queued, hws]
        simp
      rcases Pc.sleepsAt_eq_some hu with ⟨g, hg, htarget⟩
      refine ⟨u, us, g, rfl, hg, htarget, ?_⟩
      simp [SynchState.up, sema_up, hws, SynchState.unblock, hg]

omit [DecidableEq C] in
/-- A thread that is not in `sema_down`, or not yet past its first test, moves on. -/
theorem move (h : Queues s) (hs : (s.pc t).sleepsAt t = none) (hw : (s.pc t).wokenAt t = none)
    (hs' : p.sleepsAt t = none) (hw' : p.wokenAt t = none) : Queues (s.setPc t p) where
  queued y u := by
    by_cases hut : u = t
    · subst hut
      simp [h.queued, hs, hs']
    · simp [h.queued, hut]
  nodup := h.nodup
  claimed y hy := by
    have hle := h.claimed y hy
    rw [wokenOn_setPc, hw, hw']
    simpa using hle

omit [DecidableEq C] in
/-- Units go away: `sema_try_down`. -/
theorem lower (h : Queues s) {v : Nat} (hv : v ≤ (s.sema x).value) :
    Queues (s.setSema x ⟨v, (s.sema x).waiters⟩) := by
  have hwaiters : ∀ y, ((s.setSema x ⟨v, (s.sema x).waiters⟩).sema y).waiters =
      (s.sema y).waiters := by
    intro y
    by_cases hyx : y = x
    · subst hyx
      simp
    · simp [hyx]
  constructor
  · intro y u
    rw [hwaiters]
    exact h.queued y u
  · intro y
    rw [hwaiters]
    exact h.nodup y
  · intro y hy
    rw [hwaiters] at hy
    have hle := h.claimed y hy
    by_cases hyx : y = x
    · subst hyx
      simp only [SynchState.setSema_sema, Function.update_self]
      exact le_trans (Int.ofNat_le.2 hv) hle
    · simpa [hyx] using hle

omit [Fintype T] [DecidableEq C] in
/-- The thread is about to test, for the first time or again: it is not on a list, and if it was
unblocked it was so from its own semaphore. -/
theorem testing {g : Goal S L C} (ht : s.pc t = .test g ∨ s.pc t = .woken g) :
    (s.pc t).sleepsAt t = none ∧ ∀ y, y ≠ g.target t →
      vote ((s.pc t).wokenAt t == some y) = 0 := by
  rcases ht with ht | ht
  · rw [ht]
    exact ⟨rfl, fun _ _ => rfl⟩
  · rw [ht]
    refine ⟨rfl, fun y hy => ?_⟩
    simp [Pc.wokenAt, vote, Ne.symm hy]

omit [DecidableEq C] in
theorem take (h : Queues s) {g : Goal S L C} (ht : s.pc t = .test g ∨ s.pc t = .woken g) {v : Nat}
    (hv : (s.sema (g.target t)).value = v + 1) (lockOf : C → L) :
    Queues ((s.setSema (g.target t) ⟨v, (s.sema (g.target t)).waiters⟩).setPc t
      (g.after lockOf)) := by
  rcases testing ht with ⟨hsleep, hvote⟩
  have hlow := h.lower (x := g.target t) (v := v) (by omega)
  constructor
  · intro y u
    by_cases hut : u = t
    · subst hut
      have hq := hlow.queued y u
      simp only [SynchState.setSema_pc, hsleep] at hq
      simpa using hq
    · simpa [hut] using hlow.queued y u
  · exact hlow.nodup
  · intro y hy
    rw [wokenOn_setPc, wokenOn_setSema]
    by_cases hyx : y = g.target t
    · -- one unit less, and at most one unblocked thread less
      subst hyx
      have hle := h.claimed _ (by simpa using hy)
      have hone : vote ((s.pc t).wokenAt t == some (g.target t)) ≤ 1 := by
        unfold vote
        split <;> omega
      simp only [SynchState.setPc_sema, SynchState.setSema_sema, Function.update_self,
        SynchState.setSema_pc, Goal.after_wokenAt]
      have hzero : vote ((none : Option (SemaId T S L)) == some (g.target t)) = 0 := rfl
      omega
    · have hle := hlow.claimed y hy
      rw [wokenOn_setSema] at hle
      simpa [hvote y hyx] using hle

omit [DecidableEq C] in
theorem block (h : Queues s) {g : Goal S L C} (ht : s.pc t = .test g ∨ s.pc t = .woken g) :
    Queues ((s.setSema (g.target t) ⟨0, (s.sema (g.target t)).waiters ++ [t]⟩).setPc t
      (.asleep g)) := by
  rcases testing ht with ⟨hsleep, hvote⟩
  have hnot : ∀ y, t ∉ (s.sema y).waiters := by
    intro y
    rw [h.queued, hsleep]
    simp
  constructor
  · intro y u
    by_cases hyx : y = g.target t
    · subst hyx
      by_cases hut : u = t
      · subst hut
        simp [Pc.sleepsAt]
      · simp [hut, h.queued]
    · by_cases hut : u = t
      · subst hut
        simp [hyx, hnot, Pc.sleepsAt, Ne.symm hyx]
      · simp [hyx, hut, h.queued]
  · intro y
    by_cases hyx : y = g.target t
    · subst hyx
      simpa [List.nodup_append, h.nodup] using
        fun a ha => ne_of_mem_of_not_mem ha (hnot (g.target t))
    · simpa [hyx] using h.nodup y
  · intro y hy
    by_cases hyx : y = g.target t
    · subst hyx
      simpa using wokenOn_nonneg _ (g.target t)
    · have hle := h.claimed y (by simpa [hyx] using hy)
      have hnone : vote ((Pc.asleep g : Pc T S L C).wokenAt t == some y) = 0 := rfl
      rw [wokenOn_setPc, wokenOn_setSema, SynchState.setSema_pc, hvote y hyx, hnone]
      simpa [hyx] using hle

omit [DecidableEq C] in
theorem up (h : Queues s) (x : SemaId T S L) : Queues (s.up x) := by
  rcases h.up_cases x with ⟨hnil, hup⟩ | ⟨u, us, g, hws, hu, htarget, hup⟩
  · rw [hup]
    constructor
    · intro y t
      by_cases hyx : y = x
      · subst hyx
        simp [← h.queued, hnil]
      · simp [hyx, h.queued]
    · intro y
      by_cases hyx : y = x
      · subst hyx
        simp
      · simpa [hyx] using h.nodup y
    · intro y hy
      by_cases hyx : y = x
      · subst hyx
        simp at hy
      · simpa [hyx] using h.claimed y (by simpa [hyx] using hy)
  · rw [hup]
    have hnodup := h.nodup x
    rw [hws, List.nodup_cons] at hnodup
    have hasleep : (s.pc u).sleepsAt u = some x := by
      rw [hu, ← htarget]
      rfl
    constructor
    · intro y t
      have hq := h.queued y t
      by_cases htu : t = u
      · subst htu
        by_cases hyx : y = x
        · subst hyx
          simpa [Pc.sleepsAt] using hnodup.1
        · rw [hasleep] at hq
          simpa [hyx, Pc.sleepsAt, Ne.symm hyx] using hq
      · by_cases hyx : y = x
        · subst hyx
          rw [hws] at hq
          simpa [htu] using hq
        · simpa [hyx, htu] using hq
    · intro y
      by_cases hyx : y = x
      · subst hyx
        simpa using hnodup.2
      · simpa [hyx] using h.nodup y
    · intro y hy
      have hold : vote ((s.pc u).wokenAt u == some y) = 0 := by
        rw [hu]
        rfl
      rw [wokenOn_setPc, wokenOn_setSema, SynchState.setSema_pc, hold]
      by_cases hyx : y = x
      · -- one unit more, and one unblocked thread more
        subst hyx
        have hle := h.claimed y (by simp [hws])
        have hnew : vote ((Pc.woken g : Pc T S L C).wokenAt u == some y) = 1 := by
          simp [Pc.wokenAt, htarget]
        have hmod : ((s.sema y).value + 1) % 2 ^ 32 ≤ (s.sema y).value + 1 := Nat.mod_le _ _
        simp only [SynchState.setPc_sema, SynchState.setSema_sema, Function.update_self, hnew]
        omega
      · have hle := h.claimed y (by simpa [hyx] using hy)
        have hnew : vote ((Pc.woken g : Pc T S L C).wokenAt u == some y) = 0 := by
          simp [Pc.wokenAt, htarget, vote, Ne.symm hyx]
        rw [hnew]
        simpa [hyx] using hle

end Queues

end

/-! ## Who has a lock -/

section

variable [DecidableEq T] [DecidableEq S] [DecidableEq L]

/-- The thread is between the lock's acquisition and its release. -/
def SynchState.owns (s : SynchState T S L C) (t : T) (l : L) : Prop :=
  s.holder l = some t ∨ (s.pc t).midway = some l

structure Locks (lockOf : C → L) (s : SynchState T S L C) : Prop where
  own : ∀ l, ∃ o : Option T, (∀ t, s.owns t l ↔ o = some t) ∧
    (s.sema (.lock l)).value = if o = none then 1 else 0
  clear : ∀ t l, (s.pc t).midway = some l → s.holder l = none
  held : ∀ t c, (s.pc t).busyWith = some c → s.holder (lockOf c) = some t

variable {lockOf : C → L} {s s' : SynchState T S L C} {t : T} {l : L} {p : Pc T S L C}
variable {x : SemaId T S L}

namespace SynchState

omit [DecidableEq S] [DecidableEq L] in
/-- Unblocking a thread changes at most its place. -/
theorem unblock_rest (s : SynchState T S L C) (o : Option T) :
    (s.unblock o).sema = s.sema ∧ (s.unblock o).holder = s.holder ∧
      (s.unblock o).waiters = s.waiters := by
  cases o with
  | none =>
      exact ⟨rfl, rfl, rfl⟩
  | some u =>
      simp only [unblock]
      split <;> exact ⟨rfl, rfl, rfl⟩

@[simp] theorem up_sema (s : SynchState T S L C) (x : SemaId T S L) :
    (s.up x).sema = Function.update s.sema x (sema_up (s.sema x)).1 :=
  (unblock_rest _ _).1

@[simp] theorem up_holder (s : SynchState T S L C) (x : SemaId T S L) :
    (s.up x).holder = s.holder := (unblock_rest _ _).2.1

@[simp] theorem up_waiters (s : SynchState T S L C) (x : SemaId T S L) :
    (s.up x).waiters = s.waiters := (unblock_rest _ _).2.2

omit [DecidableEq S] [DecidableEq L] in
theorem unblock_pc_congr {β : Type} (f : Pc T S L C → β) (hf : ∀ g, f (.woken g) = f (.asleep g))
    (s : SynchState T S L C) (o : Option T) (u : T) : f ((s.unblock o).pc u) = f (s.pc u) := by
  cases o with
  | none =>
      rfl
  | some v =>
      cases hv : s.pc v with
      | asleep g =>
          by_cases huv : u = v
          · subst huv
            simp [unblock, hv, hf]
          · simp [unblock, hv, huv]
      | _ =>
          simp [unblock, hv]

/-- `sema_up` changes no more than the place of a thread that was blocked. -/
theorem up_pc_congr {β : Type} (f : Pc T S L C → β) (hf : ∀ g, f (.woken g) = f (.asleep g))
    (s : SynchState T S L C) (x : SemaId T S L) (u : T) : f ((s.up x).pc u) = f (s.pc u) :=
  unblock_pc_congr f hf (s.setSema x (sema_up (s.sema x)).1) (sema_up (s.sema x)).2 u

theorem up_midway (s : SynchState T S L C) (x : SemaId T S L) (u : T) :
    ((s.up x).pc u).midway = (s.pc u).midway := up_pc_congr Pc.midway (fun _ => rfl) s x u

theorem up_busyWith (s : SynchState T S L C) (x : SemaId T S L) (u : T) :
    ((s.up x).pc u).busyWith = (s.pc u).busyWith := up_pc_congr Pc.busyWith (fun _ => rfl) s x u

end SynchState

namespace Locks

omit [DecidableEq S] [DecidableEq L] [DecidableEq T] in
/-- Steps that touch no lock; a thread that starts to work on a condition holds its lock. -/
theorem congr (h : Locks lockOf s)
    (hsema : ∀ l, (s'.sema (.lock l)).value = (s.sema (.lock l)).value)
    (hholder : s'.holder = s.holder) (hmid : ∀ t, (s'.pc t).midway = (s.pc t).midway)
    (hbusy : ∀ t c, (s'.pc t).busyWith = some c →
      (s.pc t).busyWith = some c ∨ s.holder (lockOf c) = some t) : Locks lockOf s' where
  own l := by
    rcases h.own l with ⟨o, howns, hvalue⟩
    refine ⟨o, fun t => ?_, by rw [hsema, hvalue]⟩
    rw [← howns, SynchState.owns, SynchState.owns, hholder, hmid]
  clear t l ht := by
    rw [hholder]
    exact h.clear t l (by rwa [← hmid])
  held t c ht := by
    rw [hholder]
    rcases hbusy t c ht with hc | hc
    · exact h.held t c hc
    · exact hc

omit [DecidableEq S] [DecidableEq L] [DecidableEq T] in
theorem owner_unique (h : Locks lockOf s) {u : T} (ht : s.owns t l) (hu : s.owns u l) : t = u := by
  rcases h.own l with ⟨o, howns, _⟩
  exact Option.some.inj (((howns t).1 ht).symm.trans ((howns u).1 hu))

omit [DecidableEq S] [DecidableEq L] [DecidableEq T] in
theorem value_of_owns (h : Locks lockOf s) (ht : s.owns t l) : (s.sema (.lock l)).value = 0 := by
  rcases h.own l with ⟨o, howns, hvalue⟩
  rw [hvalue, (howns t).1 ht]
  rfl

/-- Taking the unit makes the thread an owner. -/
theorem owns_acquire (hmid : (s.pc t).midway = none) {σ : Semaphore T} (u : T) (k : L) :
    ((s.setSema (.lock l) σ).setPc t (.got l)).owns u k ↔ (u = t ∧ k = l) ∨ s.owns u k := by
  by_cases hut : u = t
  · subst hut
    simp [SynchState.owns, hmid, or_comm, eq_comm]
  · simp [SynchState.owns, hut]

omit [DecidableEq S] in
/-- An owner becomes the holder. -/
theorem owns_hold (h : Locks lockOf s) (ht : (s.pc t).midway = some l) (hp : p.midway = none)
    (u : T) (k : L) : ((s.setHolder l (some t)).setPc t p).owns u k ↔ s.owns u k := by
  have hclear := h.clear t l ht
  by_cases hkl : k = l
  · subst hkl
    by_cases hut : u = t
    · subst hut
      simpa [SynchState.owns] using Or.inr ht
    · have hnot : (s.pc u).midway ≠ some k := fun hu =>
        hut (h.owner_unique (Or.inr hu) (Or.inr ht))
      simp [SynchState.owns, hut, Ne.symm hut, hclear, hnot]
  · by_cases hut : u = t
    · subst hut
      simp [SynchState.owns, hkl, ht, hp, Ne.symm hkl]
    · simp [SynchState.owns, hkl, hut]

omit [DecidableEq S] in
/-- A holder that clears `holder` stays an owner. -/
theorem owns_let_go (h : Locks lockOf s) (ht : s.holder l = some t) (hmid : (s.pc t).midway = none)
    (c : Option C) (u : T) (k : L) :
    ((s.setHolder l none).setPc t (.releasing l c)).owns u k ↔ s.owns u k := by
  by_cases hkl : k = l
  · subst hkl
    by_cases hut : u = t
    · subst hut
      simp [SynchState.owns, ht]
    · have hnot : ¬ s.owns u k := fun hu => hut (h.owner_unique hu (Or.inl ht))
      rw [SynchState.owns, not_or] at hnot
      simp [SynchState.owns, hut, hnot.1, hnot.2]
  · by_cases hut : u = t
    · subst hut
      simp [SynchState.owns, hkl, hmid, Ne.symm hkl]
    · simp [SynchState.owns, hkl, hut]

/-- Giving the unit back ends the ownership. -/
theorem owns_release (h : Locks lockOf s) (ht : (s.pc t).midway = some l) (hp : p.midway = none)
    (u : T) (k : L) : ((s.up (.lock l)).setPc t p).owns u k ↔ s.owns u k ∧ ¬ (u = t ∧ k = l) := by
  have hclear := h.clear t l ht
  by_cases hut : u = t
  · subst hut
    by_cases hkl : k = l
    · subst hkl
      simp [SynchState.owns, hclear, hp]
    · simp [SynchState.owns, hp, ht, hkl, Ne.symm hkl]
  · simp [SynchState.owns, hut, SynchState.up_midway]

/-- A thread gets the unit of the lock. -/
theorem acquire (h : Locks lockOf s) (hmid : (s.pc t).midway = none)
    (hv : (s.sema (.lock l)).value ≠ 0) {ws : List T} :
    Locks lockOf ((s.setSema (.lock l) ⟨(s.sema (.lock l)).value - 1, ws⟩).setPc t (.got l)) := by
  rcases h.own l with ⟨o, howns, hvalue⟩
  have hnone : o = none := by
    by_contra hne
    rw [if_neg hne] at hvalue
    exact hv hvalue
  subst hnone
  have hfree : ∀ u, ¬ s.owns u l := by
    intro u hu
    cases (howns u).1 hu
  constructor
  · intro k
    by_cases hkl : k = l
    · subst hkl
      refine ⟨some t, fun u => ?_, by simp [hvalue]⟩
      rw [owns_acquire hmid]
      simp [hfree u, eq_comm]
    · rcases h.own k with ⟨o, howns', hvalue'⟩
      refine ⟨o, fun u => ?_, by simpa [hkl] using hvalue'⟩
      rw [owns_acquire hmid, ← howns']
      simp [hkl]
  · intro u k hu
    by_cases hut : u = t
    · subst hut
      have hlk : l = k := by simpa using hu
      subst hlk
      refine Option.eq_none_iff_forall_ne_some.2 fun v hv' => ?_
      exact hfree v (Or.inl hv')
    · exact h.clear u k (by simpa [hut] using hu)
  · intro u c hu
    by_cases hut : u = t
    · subst hut
      simp [Pc.busyWith] at hu
    · exact h.held u c (by simpa [hut] using hu)

omit [DecidableEq S] in
/-- The thread becomes the holder. -/
theorem hold (h : Locks lockOf s) (ht : s.pc t = .got l) :
    Locks lockOf ((s.setHolder l (some t)).setPc t .outside) := by
  have hmid : (s.pc t).midway = some l := by
    rw [ht]
    rfl
  have hclear := h.clear t l hmid
  constructor
  · intro k
    rcases h.own k with ⟨o, howns, hvalue⟩
    exact ⟨o, fun u => (h.owns_hold hmid rfl u k).trans (howns u), hvalue⟩
  · intro u k hu
    by_cases hut : u = t
    · subst hut
      simp at hu
    · have hu' : (s.pc u).midway = some k := by simpa [hut] using hu
      have hkl : k ≠ l := by
        rintro rfl
        exact hut (h.owner_unique (Or.inr hu') (Or.inr hmid))
      simpa [hkl] using h.clear u k hu'
  · intro u c hu
    by_cases hut : u = t
    · subst hut
      simp [Pc.busyWith] at hu
    · have hheld := h.held u c (by simpa [hut] using hu)
      have hcl : lockOf c ≠ l := by
        rintro rfl
        rw [hclear] at hheld
        cases hheld
      simpa [hcl] using hheld

omit [DecidableEq S] in
/-- The holder clears `holder` and is about to give the unit back. -/
theorem let_go (h : Locks lockOf s) (ht : s.holder l = some t) (hmid : (s.pc t).midway = none)
    (c : Option C) : Locks lockOf ((s.setHolder l none).setPc t (.releasing l c)) := by
  constructor
  · intro k
    rcases h.own k with ⟨o, howns, hvalue⟩
    exact ⟨o, fun u => (h.owns_let_go ht hmid c u k).trans (howns u), hvalue⟩
  · intro u k hu
    by_cases hut : u = t
    · subst hut
      have hlk : l = k := by simpa using hu
      subst hlk
      simp
    · have hclear := h.clear u k (by simpa [hut] using hu)
      by_cases hkl : k = l
      · subst hkl
        simp
      · simpa [hkl] using hclear
  · intro u c' hu
    by_cases hut : u = t
    · subst hut
      simp [Pc.busyWith] at hu
    · have hheld := h.held u c' (by simpa [hut] using hu)
      have hcl : lockOf c' ≠ l := by
        rintro rfl
        rw [ht] at hheld
        exact hut (Option.some.inj hheld).symm
      simpa [hcl] using hheld

/-- The unit is given back. -/
theorem release (h : Locks lockOf s) (ht : (s.pc t).midway = some l) (hmid : p.midway = none)
    (hbusy : p.busyWith = none) : Locks lockOf ((s.up (.lock l)).setPc t p) := by
  have hown : s.owns t l := Or.inr ht
  have hclear := h.clear t l ht
  have hzero := h.value_of_owns hown
  constructor
  · intro k
    by_cases hkl : k = l
    · subst hkl
      refine ⟨none, fun u => ?_, by simp [sema_up, hzero]⟩
      rw [h.owns_release ht hmid]
      -- the only owner was the thread itself
      have hself : s.owns u k → u = t := fun hu => h.owner_unique hu hown
      simpa using hself
    · rcases h.own k with ⟨o, howns, hvalue⟩
      refine ⟨o, fun u => ?_, by simpa [hkl] using hvalue⟩
      rw [h.owns_release ht hmid, ← howns]
      simp [hkl]
  · intro u k hu
    by_cases hut : u = t
    · subst hut
      simp [hmid] at hu
    · simpa using h.clear u k (by simpa [hut, SynchState.up_midway] using hu)
  · intro u c' hu
    by_cases hut : u = t
    · subst hut
      simp [hbusy] at hu
    · simpa using h.held u c' (by simpa [hut, SynchState.up_busyWith] using hu)

end Locks

end

end Berk162
