import Berk162.Threads.SynchConds

/-!
# SynchRuns — semaphores, locks and condition variables over whole runs

The labels of a run say what was done to each semaphore.  `units` adds up what they did to one, and
`inside` says whether a thread's last deed on a lock was to acquire it.
-/

namespace Berk162

variable {T S L C : Type}
variable [Fintype T] [DecidableEq T] [DecidableEq S] [DecidableEq L] [DecidableEq C]

/-! ## What a run did -/

/-- What a step does to the number of units of `x`. -/
def Act.effect (x : SemaId T S L) : Act T S L → Int → Int
  | .tau, n => n
  | .init y v, n => if y = x then v else n
  | .up y _, n => if y = x then n + 1 else n
  | .down y _, n => if y = x then n - 1 else n

/-- The value that `x` had at the start or got from its last `sema_init`, plus the completed
`sema_up` calls on it since, minus the completed `sema_down` and successful `sema_try_down` calls. -/
def units (x : SemaId T S L) (acts : List (Act T S L)) (value : Int) : Int :=
  acts.foldl (fun n a => a.effect x n) value

/-- Whether `t` is between an acquisition of `l` and its release after a step, given whether it was
before. -/
def Act.enters (l : L) (t : T) : Act T S L → Bool → Bool
  | .up x who, b => if x = .lock l ∧ who = some t then false else b
  | .down x who, b => if x = .lock l ∧ who = some t then true else b
  | _, b => b

/-- Of the acquisitions and releases of `l` by `t` in a run, the last is an acquisition. -/
def inside (l : L) (t : T) (acts : List (Act T S L)) : Bool :=
  acts.foldl (fun b a => a.enters l t b) false

structure SynchInv (lockOf : C → L) (s : SynchState T S L C) : Prop where
  queues : Queues s
  locks : Locks lockOf s
  conds : Conds s

variable {lockOf : C → L} {s s' : SynchState T S L C} {t u : T} {c : C} {p : Pc T S L C}
variable {x : SemaId T S L} {a : Act T S L}

/-! ## Who is unblocked -/

namespace Queues

omit [DecidableEq C] in
/-- `sema_up` leaves a thread where it is, or unblocks it from the semaphore it slept on. -/
theorem up_pc_cases (h : Queues s) (x : SemaId T S L) (u : T) :
    (s.up x).pc u = s.pc u ∨
      ∃ g, s.pc u = .asleep g ∧ g.target u = x ∧ (s.up x).pc u = .woken g := by
  rcases h.up_cases x with ⟨_, hup⟩ | ⟨v, us, g, _, hv, htarget, hup⟩
  · left
    rw [hup]
    rfl
  · rw [hup]
    by_cases huv : u = v
    · subst huv
      exact Or.inr ⟨g, hv, htarget, by simp⟩
    · exact Or.inl (by simp [huv])

omit [DecidableEq C] in
/-- A thread that does not sleep is left alone by `sema_up`. -/
theorem up_pc (h : Queues s) (x : SemaId T S L) (ht : (s.pc t).sleepsAt t = none) :
    (s.up x).pc t = s.pc t := by
  rcases h.up_pc_cases x t with hsame | ⟨g, hg, _⟩
  · exact hsame
  · rw [hg] at ht
    cases ht

omit [DecidableEq C] in
/-- `sema_up`, after which the thread that did it moves on. -/
theorem up_move (h : Queues s) (x : SemaId T S L) (hs : (s.pc t).sleepsAt t = none)
    (hw : (s.pc t).wokenAt t = none) (hs' : p.sleepsAt t = none) (hw' : p.wokenAt t = none) :
    Queues ((s.up x).setPc t p) := by
  have hpc := h.up_pc x hs
  exact (h.up x).move (by rw [hpc, hs]) (by rw [hpc, hw]) hs' hw'

omit [DecidableEq C] in
/-- The semaphore of a waiter is for that waiter alone. -/
theorem up_waiter (h : Queues s) {u w : T} (hwu : w ≠ u) : (s.up (.waiter u)).pc w = s.pc w := by
  rcases h.up_pc_cases (.waiter u) w with hsame | ⟨g, _, htarget, _⟩
  · exact hsame
  · exact absurd (Goal.target_eq_waiter htarget).1 hwu

omit [DecidableEq C] in
/-- After a `sema_up` on its semaphore a waiter does not sleep there. -/
theorem up_waiter_self (h : Queues s) (u : T) (c : C) :
    (s.up (.waiter u)).pc u ≠ .asleep (.cond c) := by
  intro hasleep
  rcases h.up_cases (.waiter u) with ⟨hnil, hup⟩ | ⟨v, us, g, _, hv, htarget, hup⟩
  · rw [hup] at hasleep
    have hmem := (h.queued (.waiter u) u).2 (by
      have hpc : s.pc u = .asleep (.cond c) := hasleep
      rw [hpc]
      rfl)
    rw [hnil] at hmem
    cases hmem
  · rcases Goal.target_eq_waiter htarget with ⟨rfl, _⟩
    rw [hup] at hasleep
    simp at hasleep

end Queues

namespace Conds

omit [DecidableEq C] in
/-- `sema_up` on a semaphore that is not a waiter's. -/
theorem up_other (h : Conds s) (hq : Queues s) (hx : ∀ u, x ≠ .waiter u) : Conds (s.up x) := by
  refine h.congr (by simp) (fun u => ?_) (fun u => ?_) (fun u c v all => ?_) (fun u c hu => ?_)
    fun u c hu => ?_
  · have hne : SemaId.waiter u ≠ x := (hx u).symm
    simp [hne]
  · refine SynchState.up_pc_congr Pc.waitsFor (fun g => ?_) s x u
    cases g <;> rfl
  · have heq := SynchState.up_pc_congr (fun p => p = .signalling c v all) (fun g => by simp) s x u
    exact Iff.of_eq heq
  · rcases hq.up_pc_cases x u with hsame | ⟨g, _, htarget, hwoken⟩
    · rwa [hsame] at hu
    · rw [hwoken] at hu
      cases hu
      exact absurd htarget.symm (hx u)
  · rcases hq.up_pc_cases x u with hsame | ⟨g, _, _, hwoken⟩
    · rwa [hsame] at hu
    · rw [hwoken] at hu
      cases hu

omit [DecidableEq C] in
/-- The waiter that was taken off the list gets its unit; `t` is the only thread that was about to
give it. -/
theorem signalled (h : Conds s) (hq : Queues s) {all : Bool} (ht : s.pc t = .signalling c u all)
    (honly : ∀ v c' all', s.pc v = .signalling c' u all' → v = t) (hp : p.waitsFor = none)
    (hp' : p.aim = none) : Conds ((s.up (.waiter u)).setPc t p) := by
  rcases h.aimed t c u all ht with ⟨hwaits, hnot, hzero⟩
  have htu : t ≠ u := by
    rintro rfl
    rw [ht] at hwaits
    cases hwaits
  have hwaits' : ∀ w, ((s.up (.waiter u)).pc w).waitsFor = (s.pc w).waitsFor := by
    intro w
    refine SynchState.up_pc_congr Pc.waitsFor (fun g => ?_) s _ w
    cases g <;> rfl
  have hsig : ∀ w c' v all', (s.up (.waiter u)).pc w = .signalling c' v all' ↔
      s.pc w = .signalling c' v all' := by
    intro w c' v all'
    exact Iff.of_eq (SynchState.up_pc_congr (fun p => p = .signalling c' v all')
      (fun g => by simp) s _ w)
  have hone : (((s.up (.waiter u)).setPc t p).sema (.waiter u)).value = 1 := by
    simp [sema_up, hzero]
  have hvalue : ∀ w, w ≠ u →
      (((s.up (.waiter u)).setPc t p).sema (.waiter w)).value = (s.sema (.waiter w)).value := by
    intro w hw
    simp [hw]
  have hlistne : ∀ c' w, w ∈ s.waiters c' → w ≠ u ∧ w ≠ t := by
    intro c' w hw
    have hl := h.listed c' w hw
    constructor
    · rintro rfl
      rw [hwaits] at hl
      have hcc : c = c' := Option.some.inj hl.1
      exact hnot (hcc ▸ hw)
    · rintro rfl
      rw [ht] at hl
      cases hl.1
  constructor
  · intro c'
    simpa using h.nodup c'
  · intro c' w hw
    have hw' : w ∈ s.waiters c' := by simpa using hw
    rcases hlistne c' w hw' with ⟨hwu, hwt⟩
    refine ⟨?_, by rw [hvalue w hwu]; exact (h.listed c' w hw').2⟩
    simpa [hwt, hwaits'] using (h.listed c' w hw').1
  · intro v c' w all' hv
    by_cases hvt : v = t
    · subst hvt
      have hpv : p = .signalling c' w all' := by simpa using hv
      rw [hpv] at hp'
      cases hp'
    · have hv' : s.pc v = .signalling c' w all' := (hsig v c' w all').1 (by simpa [hvt] using hv)
      have hwu : w ≠ u := by
        rintro rfl
        exact hvt (honly v c' all' hv')
      rcases h.aimed v c' w all' hv' with ⟨hw, hwnot, hwzero⟩
      have hwt : w ≠ t := by
        rintro rfl
        rw [ht] at hw
        cases hw
      refine ⟨by simpa [hwt, hwaits'] using hw, by simpa using hwnot, ?_⟩
      rw [hvalue w hwu]
      exact hwzero
  · intro c' w hw
    by_cases hwt : w = t
    · subst hwt
      have hpw : p = .woken (.cond c') := by simpa using hw
      rw [hpw] at hp
      cases hp
    · by_cases hwu : w = u
      · subst hwu
        exact hone
      · have hsame := hq.up_waiter (u := u) hwu
        have hw' : s.pc w = .woken (.cond c') := by simpa [hwt, hsame] using hw
        rw [hvalue w hwu]
        exact h.woken c' w hw'
  · intro c' w hw
    by_cases hwt : w = t
    · subst hwt
      simp [hp] at hw
    · by_cases hwu : w = u
      · subst hwu
        exact Or.inr (Or.inr ⟨hone, by simpa [hwt] using hq.up_waiter_self w c'⟩)
      · have hsame := hq.up_waiter (u := u) hwu
        rcases h.served c' w (by simpa [hwt, hsame] using hw) with hlist | ⟨v, all', hv⟩ | ⟨hone', hne⟩
        · exact Or.inl (by simpa using hlist)
        · refine Or.inr (Or.inl ⟨v, all', ?_⟩)
          have hvt : v ≠ t := by
            rintro rfl
            rw [ht] at hv
            cases hv
            exact hwu rfl
          simpa [hvt] using (hsig v c' w all').2 hv
        · exact Or.inr (Or.inr ⟨by rw [hvalue w hwu]; exact hone', by simpa [hwt, hsame] using hne⟩)

end Conds

/-! ## Pieces of a step -/

omit [Fintype T] [DecidableEq S] [DecidableEq L] [DecidableEq C] in
theorem Locks.move (h : Locks lockOf s) (hmid : p.midway = (s.pc t).midway)
    (hbusy : ∀ c, p.busyWith = some c →
      (s.pc t).busyWith = some c ∨ s.holder (lockOf c) = some t) : Locks lockOf (s.setPc t p) := by
  refine h.congr (fun _ => rfl) rfl (fun u => ?_) fun u c hu => ?_
  · by_cases hut : u = t
    · subst hut
      simpa using hmid
    · simp [hut]
  · by_cases hut : u = t
    · subst hut
      exact hbusy c (by simpa using hu)
    · exact Or.inl (by simpa [hut] using hu)

omit [Fintype T] [DecidableEq C] in
theorem Locks.setSema (h : Locks lockOf s) {σ : Semaphore T}
    (hσ : ∀ l, x = .lock l → σ.value = (s.sema x).value) : Locks lockOf (s.setSema x σ) := by
  refine h.congr (fun l => ?_) rfl (fun _ => rfl) fun _ _ hu => Or.inl hu
  by_cases hx : SemaId.lock l = x
  · subst hx
    simpa using hσ l rfl
  · simp [hx]

omit [Fintype T] [DecidableEq C] in
theorem Conds.setSema (h : Conds s) {σ : Semaphore T}
    (hσ : ∀ u, x = .waiter u → σ.value = (s.sema x).value) : Conds (s.setSema x σ) := by
  refine h.congr rfl (fun u => ?_) (fun _ => rfl) (fun _ _ _ _ => Iff.rfl) (fun _ _ hu => hu)
    fun _ _ hu => hu
  by_cases hx : SemaId.waiter u = x
  · subst hx
    simpa using hσ u rfl
  · simp [hx]

omit [Fintype T] [DecidableEq T] [DecidableEq S] [DecidableEq C] in
theorem Conds.setHolder (h : Conds s) (l : L) (o : Option T) : Conds (s.setHolder l o) :=
  ⟨h.nodup, h.listed, h.aimed, h.woken, h.served⟩

omit [DecidableEq C] in
theorem Queues.setHolder (h : Queues s) (l : L) (o : Option T) : Queues (s.setHolder l o) :=
  ⟨h.queued, h.nodup, h.claimed⟩

/-- What a thread does outside `sema_down`: it neither sleeps nor has it been unblocked. -/
structure Awake (t : T) (p : Pc T S L C) : Prop where
  sleepsAt : p.sleepsAt t = none
  wokenAt : p.wokenAt t = none

omit [Fintype T] [DecidableEq T] [DecidableEq S] [DecidableEq L] [DecidableEq C] in
theorem Awake.not_cond (h : Awake t p) (c : C) : p ≠ .woken (.cond c) ∧ p ≠ .asleep (.cond c) := by
  constructor
  · rintro rfl
    exact absurd h.wokenAt (by simp [Pc.wokenAt])
  · rintro rfl
    exact absurd h.sleepsAt (by simp [Pc.sleepsAt])

omit [DecidableEq C] in
/-- A thread moves, with no change to any object. -/
theorem SynchInv.move (h : SynchInv lockOf s) (ht : Awake t (s.pc t)) (hp : Awake t p)
    (hmid : p.midway = (s.pc t).midway)
    (hbusy : ∀ c, p.busyWith = some c →
      (s.pc t).busyWith = some c ∨ s.holder (lockOf c) = some t)
    (hwaits : p.waitsFor = (s.pc t).waitsFor) (haim : (s.pc t).aim = none) (haim' : p.aim = none) :
    SynchInv lockOf (s.setPc t p) where
  queues := h.queues.move ht.sleepsAt ht.wokenAt hp.sleepsAt hp.wokenAt
  locks := h.locks.move hmid hbusy
  conds := h.conds.move hwaits haim haim' (fun c => (hp.not_cond c).1) fun c => (hp.not_cond c).2

/-! ## The steps -/

namespace SynchInv

omit [DecidableEq C] in
theorem take (h : SynchInv lockOf s) {g : Goal S L C} (ht : s.pc t = .test g ∨ s.pc t = .woken g)
    (hv : (s.sema (g.target t)).value ≠ 0) : SynchInv lockOf (s.down lockOf t g) := by
  rcases Nat.exists_eq_succ_of_ne_zero hv with ⟨v, hv'⟩
  have hmid : (s.pc t).midway = none := by rcases ht with ht | ht <;> rw [ht] <;> rfl
  have haim : (s.pc t).aim = none := by rcases ht with ht | ht <;> rw [ht] <;> rfl
  rw [down_take hv']
  cases g with
  | sema x =>
      have hwaits : (s.pc t).waitsFor = none := by rcases ht with ht | ht <;> rw [ht] <;> rfl
      refine ⟨h.queues.take ht hv' lockOf, ?_, ?_⟩
      · refine (h.locks.setSema ?_).move (by simp [hmid, Goal.after]) (by simp [Goal.after, Pc.busyWith])
        intro l hl
        cases hl
      · refine (h.conds.setSema ?_).move (by simp [hwaits, Goal.after]) haim rfl
          (fun c hc => by cases hc) fun c hc => by cases hc
        intro u hu
        cases hu
  | lock l =>
      have hwaits : (s.pc t).waitsFor = none := by rcases ht with ht | ht <;> rw [ht] <;> rfl
      refine ⟨h.queues.take ht hv' lockOf, ?_, ?_⟩
      · have hacq := @Locks.acquire _ _ _ _ _ _ _ _ _ _ _ h.locks hmid hv (s.sema (.lock l)).waiters
        have hpred : (s.sema (.lock l)).value - 1 = v := by
          have hsucc : (s.sema (.lock l)).value = v + 1 := hv'
          omega
        rwa [hpred] at hacq
      · refine (h.conds.setSema ?_).move ?_ haim rfl (fun c hc => by cases hc) fun c hc => by cases hc
        · intro u hu
          cases hu
        · exact hwaits.symm
  | cond c =>
      have hwaits : (s.pc t).waitsFor = some c := by rcases ht with ht | ht <;> rw [ht] <;> rfl
      refine ⟨h.queues.take ht hv' lockOf, ?_, ?_⟩
      · refine (h.locks.setSema ?_).move hmid.symm (by simp [Goal.after, Pc.busyWith])
        intro l hl
        cases hl
      · exact h.conds.leave hwaits hv haim rfl rfl

omit [DecidableEq C] in
theorem block (h : SynchInv lockOf s) {g : Goal S L C} (ht : s.pc t = .test g ∨ s.pc t = .woken g)
    (hv : (s.sema (g.target t)).value = 0) : SynchInv lockOf (s.down lockOf t g) := by
  have hmid : (s.pc t).midway = none := by rcases ht with ht | ht <;> rw [ht] <;> rfl
  have haim : (s.pc t).aim = none := by rcases ht with ht | ht <;> rw [ht] <;> rfl
  rw [down_block hv]
  refine ⟨h.queues.block ht, ?_, ?_⟩
  · refine (h.locks.setSema fun _ _ => hv.symm).move hmid.symm ?_
    simp [Pc.busyWith]
  · have hsema := @Conds.setSema _ _ _ _ _ _ _ _ (g.target t) h.conds
      ⟨0, (s.sema (g.target t)).waiters ++ [t]⟩ fun _ _ => hv.symm
    cases g with
    | cond c =>
        have htest : s.pc t = .test (.cond c) := by
          rcases ht with ht | ht
          · exact ht
          · -- a waiter is unblocked with its unit there
            have hone := h.conds.woken c t ht
            have hzero : (s.sema (.waiter t)).value = 0 := hv
            omega
        exact hsema.sleep htest (by simp [Goal.target])
    | sema x =>
        have hwaits : (s.pc t).waitsFor = none := by rcases ht with ht | ht <;> rw [ht] <;> rfl
        exact hsema.move hwaits.symm haim rfl (fun c hc => by cases hc) fun c hc => by cases hc
    | lock l =>
        have hwaits : (s.pc t).waitsFor = none := by rcases ht with ht | ht <;> rw [ht] <;> rfl
        exact hsema.move hwaits.symm haim rfl (fun c hc => by cases hc) fun c hc => by cases hc

/-- `cond_signal` up to its `sema_up`. -/
theorem signal (h : SynchInv lockOf s) (ht : s.pc t = .outside ∨ s.pc t = .broadcasting c)
    (hheld : s.holder (lockOf c) = some t) (all : Bool) : SynchInv lockOf (s.signal t c all) := by
  have hawake : Awake t (s.pc t) := by rcases ht with ht | ht <;> rw [ht] <;> exact ⟨rfl, rfl⟩
  have hmid : (s.pc t).midway = none := by rcases ht with ht | ht <;> rw [ht] <;> rfl
  have hwaits : (s.pc t).waitsFor = none := by rcases ht with ht | ht <;> rw [ht] <;> rfl
  have haim : (s.pc t).aim = none := by rcases ht with ht | ht <;> rw [ht] <;> rfl
  cases hws : s.waiters c with
  | nil =>
      have hsig : s.signal t c all = s.setPc t .outside := by simp [SynchState.signal, hws]
      rw [hsig]
      refine h.move hawake ⟨rfl, rfl⟩ hmid.symm (fun c hc => ?_) hwaits.symm haim rfl
      cases hc
  | cons u us =>
      have hsig : s.signal t c all = (s.setWaiters c us).setPc t (.signalling c u all) := by
        simp [SynchState.signal, hws]
      rw [hsig]
      refine ⟨?_, ?_, h.conds.pop hwaits haim hws all⟩
      · have hq : Queues (s.setWaiters c us) := ⟨h.queues.queued, h.queues.nodup, h.queues.claimed⟩
        exact hq.move hawake.sleepsAt hawake.wokenAt rfl rfl
      · have hl : Locks lockOf (s.setWaiters c us) := ⟨h.locks.own, h.locks.clear, h.locks.held⟩
        refine hl.move hmid.symm fun c' hc' => Or.inr ?_
        have hcc : c = c' := Option.some.inj hc'
        rw [← hcc]
        exact hheld

omit [DecidableEq C] in
/-- The waiter gets its unit: no other thread is about to give it one. -/
theorem signal_up (h : SynchInv lockOf s) {all : Bool} (ht : s.pc t = .signalling c u all) :
    SynchInv lockOf ((s.up (.waiter u)).setPc t (if all then .broadcasting c else .outside)) := by
  have honly : ∀ v c' all', s.pc v = .signalling c' u all' → v = t := by
    intro v c' all' hv
    have hw := (h.conds.aimed t c u all ht).1
    have hw' := (h.conds.aimed v c' u all' hv).1
    have hcc : c' = c := Option.some.inj (hw'.symm.trans hw)
    subst hcc
    have hheld := h.locks.held t c' (by rw [ht]; rfl)
    have hheld' := h.locks.held v c' (by rw [hv]; rfl)
    exact Option.some.inj (hheld'.symm.trans hheld)
  have hpc : (s.up (.waiter u)).pc t = s.pc t := h.queues.up_pc _ (by rw [ht]; rfl)
  have hlocks : Locks lockOf (s.up (.waiter u)) := by
    refine h.locks.congr (fun l => by simp) (by simp) (fun v => s.up_midway _ v) fun v c' hv => ?_
    exact Or.inl (by rwa [← s.up_busyWith (.waiter u) v])
  refine ⟨?_, ?_, ?_⟩
  · refine h.queues.up_move _ (by rw [ht]; rfl) (by rw [ht]; rfl) ?_ ?_ <;> cases all <;> rfl
  · refine hlocks.move ?_ ?_
    · rw [hpc, ht]
      cases all <;> rfl
    · intro c' hc'
      rw [hpc, ht]
      cases all with
      | false =>
          cases hc'
      | true =>
          exact Or.inl hc'
  · exact h.conds.signalled h.queues ht honly (by cases all <;> rfl) (by cases all <;> rfl)

theorem step (h : SynchInv lockOf s) (hstep : SynchStep lockOf s a s') : SynchInv lockOf s' := by
  have hawake : ∀ {t : T}, s.pc t = .outside → Awake t (s.pc t) := by
    intro t ht
    rw [ht]
    exact ⟨rfl, rfl⟩
  cases hstep with
  | sema_down x ht =>
      refine h.move (hawake ht) ⟨rfl, rfl⟩ (by rw [ht]; rfl) (fun c hc => ?_) (by rw [ht]; rfl)
        (by rw [ht]; rfl) rfl
      cases hc
  | take ht hv =>
      exact h.take ht hv
  | block ht hv =>
      exact h.block ht hv
  | sema_up x _ =>
      refine ⟨h.queues.up _, ?_, h.conds.up_other h.queues fun u => ?_⟩
      · refine h.locks.congr (fun l => by simp) (by simp) (fun v => s.up_midway _ v)
          fun v c' hv => ?_
        exact Or.inl (by rwa [← s.up_busyWith (.sema x) v])
      · simp
  | sema_try_down x hok =>
      have hpos : (s.sema (.sema x)).value > 0 := by
        by_contra hnot
        simp [sema_try_down, hnot] at hok
      simp only [sema_try_down, hpos, if_true]
      refine ⟨h.queues.lower (Nat.sub_le _ _), h.locks.setSema ?_, h.conds.setSema ?_⟩
      · intro l hl
        cases hl
      · intro u hu
        cases hu
  | lock_acquire l ht _ =>
      refine h.move (hawake ht) ⟨rfl, rfl⟩ (by rw [ht]; rfl) (fun c hc => ?_) (by rw [ht]; rfl)
        (by rw [ht]; rfl) rfl
      cases hc
  | @lock_try_acquire t l ht _ hok =>
      have hpos : (s.sema (.lock l)).value > 0 := by
        by_contra hnot
        simp [sema_try_down, hnot] at hok
      simp only [sema_try_down, hpos, if_true]
      refine ⟨?_, h.locks.acquire (by rw [ht]; rfl) (Nat.pos_iff_ne_zero.1 hpos), ?_⟩
      · exact (h.queues.lower (Nat.sub_le _ _)).move (hawake ht).sleepsAt (hawake ht).wokenAt rfl rfl
      · refine (h.conds.setSema fun u hu => ?_).move ?_ ?_ rfl (fun c hc => ?_) fun c hc => ?_
        · cases hu
        · rw [SynchState.setSema_pc, ht]
          rfl
        · rw [SynchState.setSema_pc, ht]
          rfl
        · cases hc
        · cases hc
  | @set_holder t l ht =>
      refine ⟨?_, h.locks.hold ht, ?_⟩
      · exact (h.queues.setHolder _ _).move (by simp [ht, Pc.sleepsAt]) (by simp [ht, Pc.wokenAt])
          rfl rfl
      · refine (h.conds.setHolder _ _).move ?_ ?_ rfl (fun c hc => ?_) fun c hc => ?_
        · rw [SynchState.setHolder_pc, ht]
          rfl
        · rw [SynchState.setHolder_pc, ht]
          rfl
        · cases hc
        · cases hc
  | @lock_release t l ht hheld =>
      refine ⟨?_, h.locks.let_go hheld (by rw [ht]; rfl) none, ?_⟩
      · exact (h.queues.setHolder _ _).move (hawake ht).sleepsAt (hawake ht).wokenAt rfl rfl
      · refine (h.conds.setHolder _ _).move ?_ ?_ rfl (fun c hc => ?_) fun c hc => ?_
        · rw [SynchState.setHolder_pc, ht]
          rfl
        · rw [SynchState.setHolder_pc, ht]
          rfl
        · cases hc
        · cases hc
  | @release_up t l c ht =>
      have hpc : (s.up (.lock l)).pc t = s.pc t := h.queues.up_pc _ (by rw [ht]; rfl)
      refine ⟨?_, ?_, ?_⟩
      · refine h.queues.up_move _ (by rw [ht]; rfl) (by rw [ht]; rfl) ?_ ?_ <;> cases c <;> rfl
      · exact h.locks.release (by rw [ht]; rfl) (by cases c <;> rfl) (by cases c <;> rfl)
      · refine (h.conds.up_other h.queues (by simp)).move ?_ ?_ ?_ (fun c' hc => ?_) fun c' hc => ?_
        · rw [hpc, ht]
          cases c <;> rfl
        · rw [hpc, ht]
          rfl
        · cases c <;> rfl
        · cases c <;> cases hc
        · cases c <;> cases hc
  | @cond_wait t c ht hheld =>
      have hnil : (s.sema (.waiter t)).waiters = [] := by
        refine List.eq_nil_iff_forall_not_mem.2 fun u hu => ?_
        rcases Pc.sleepsAt_eq_some ((h.queues.queued _ u).1 hu) with ⟨g, hg, htarget⟩
        rcases Goal.target_eq_waiter htarget with ⟨rfl, _⟩
        rw [ht] at hg
        cases hg
      refine ⟨?_, ?_, h.conds.publish ht c⟩
      · have hlow := h.queues.lower (x := .waiter t) (Nat.zero_le _)
        rw [hnil] at hlow
        have hq : Queues ((s.setSema (.waiter t) (sema_init 0)).setWaiters c
            (s.waiters c ++ [t])) := ⟨hlow.queued, hlow.nodup, hlow.claimed⟩
        exact hq.move (hawake ht).sleepsAt (hawake ht).wokenAt rfl rfl
      · have hl := @Locks.setSema _ _ _ _ _ _ _ _ _ (.waiter t) h.locks (sema_init 0) (by simp)
        have hl' : Locks lockOf ((s.setSema (.waiter t) (sema_init 0)).setWaiters c
            (s.waiters c ++ [t])) := ⟨hl.own, hl.clear, hl.held⟩
        refine hl'.move ?_ fun c' hc' => Or.inr ?_
        · simp only [SynchState.setWaiters_pc, SynchState.setSema_pc, ht]
          rfl
        · have hcc : c = c' := Option.some.inj hc'
          rw [← hcc]
          exact hheld
  | @wait_release t c ht =>
      have hheld := h.locks.held t c (by rw [ht]; rfl)
      refine ⟨?_, h.locks.let_go hheld (by rw [ht]; rfl) (some c), ?_⟩
      · exact (h.queues.setHolder _ _).move (by simp [ht, Pc.sleepsAt]) (by simp [ht, Pc.wokenAt])
          rfl rfl
      · refine (h.conds.setHolder _ _).move ?_ ?_ rfl (fun c hc => ?_) fun c hc => ?_
        · rw [SynchState.setHolder_pc, ht]
          rfl
        · rw [SynchState.setHolder_pc, ht]
          rfl
        · cases hc
        · cases hc
  | cond_signal c ht hheld =>
      exact h.signal (Or.inl ht) hheld false
  | @cond_broadcast t c ht hheld =>
      refine h.move (hawake ht) ⟨rfl, rfl⟩ (by rw [ht]; rfl) (fun c' hc' => Or.inr ?_)
        (by rw [ht]; rfl) (by rw [ht]; rfl) rfl
      have hcc : c = c' := Option.some.inj hc'
      rw [← hcc]
      exact hheld
  | @broadcast_loop t c ht =>
      exact h.signal (Or.inr ht) (h.locks.held t c (by rw [ht]; rfl)) true
  | signal_up ht =>
      exact h.signal_up ht

end SynchInv

/-! ## What the labels say -/

omit [Fintype T] [DecidableEq C] in
theorem value_setSema (s : SynchState T S L C) (x y : SemaId T S L) (σ : Semaphore T) :
    ((s.setSema y σ).sema x).value = if y = x then σ.value else (s.sema x).value := by
  by_cases hyx : y = x
  · subst hyx
    simp
  · simp [hyx, Ne.symm hyx]

omit [Fintype T] [DecidableEq C] in
theorem value_up {y : SemaId T S L} (hv : (s.sema y).value + 1 < 2 ^ 32) (x : SemaId T S L) :
    (((s.up y).sema x).value : Int) =
      if y = x then ((s.sema x).value : Int) + 1 else (s.sema x).value := by
  by_cases hyx : y = x
  · subst hyx
    simp only [SynchState.up_sema, Function.update_self, sema_up, if_true]
    rw [Nat.mod_eq_of_lt hv]
    rfl
  · simp [hyx, Ne.symm hyx]

/-- The label of a step says what becomes of the value of every semaphore. -/
theorem SynchInv.effect (h : SynchInv lockOf s) (hstep : SynchStep lockOf s a s')
    (x : SemaId T S L) : ((s'.sema x).value : Int) = a.effect x (s.sema x).value := by
  have htry : ∀ {y : SemaId T S L}, (sema_try_down (s.sema y)).2 = true →
      (((s.setSema y (sema_try_down (s.sema y)).1).sema x).value : Int) =
        if y = x then ((s.sema x).value : Int) - 1 else (s.sema x).value := by
    intro y hok
    have hpos : (s.sema y).value > 0 := by
      by_contra hnot
      simp [sema_try_down, hnot] at hok
    rw [value_setSema]
    by_cases hyx : y = x
    · subst hyx
      simp only [if_true, sema_try_down, hpos]
      omega
    · simp [hyx]
  cases hstep with
  | @take t g ht hv =>
      rcases Nat.exists_eq_succ_of_ne_zero hv with ⟨v, hv'⟩
      rw [down_take hv', SynchState.setPc_sema, value_setSema, Act.effect]
      by_cases hgx : g.target t = x
      · rw [if_pos hgx, if_pos hgx, ← hgx, hv']
        simp
      · rw [if_neg hgx, if_neg hgx]
  | @block t g ht hv =>
      rw [down_block hv, SynchState.setPc_sema, value_setSema, Act.effect]
      by_cases hgx : g.target t = x
      · rw [if_pos hgx, ← hgx, hv]
      · rw [if_neg hgx]
  | sema_up y hv =>
      exact value_up hv x
  | sema_try_down y hok =>
      exact htry hok
  | lock_try_acquire l _ _ hok =>
      exact htry hok
  | @release_up t l c ht =>
      have hzero := h.locks.value_of_owns (t := t) (l := l) (Or.inr (by rw [ht]; rfl))
      exact value_up (by rw [hzero]; decide) x
  | @cond_wait t c ht hheld =>
      rw [SynchState.setPc_sema, SynchState.setWaiters_sema, value_setSema, Act.effect]
      split <;> rfl
  | cond_signal c _ _ =>
      simp only [SynchState.signal]
      split <;> rfl
  | broadcast_loop ht =>
      simp only [SynchState.signal]
      split <;> rfl
  | @signal_up t u c all ht =>
      have hzero := (h.conds.aimed t c u all ht).2.2
      exact value_up (by rw [hzero]; decide) x
  | _ =>
      rfl

omit [Fintype T] [DecidableEq T] [DecidableEq S] [DecidableEq L] [DecidableEq C] in
theorem owns_congr {l : L} (hholder : s'.holder = s.holder)
    (hmid : ∀ t, (s'.pc t).midway = (s.pc t).midway) (t : T) : s.owns t l ↔ s'.owns t l := by
  rw [SynchState.owns, SynchState.owns, hholder, hmid]

omit [Fintype T] [DecidableEq S] [DecidableEq L] [DecidableEq C] in
theorem midway_setPc (hp : p.midway = (s.pc t).midway) (u : T) :
    ((s.setPc t p).pc u).midway = (s.pc u).midway := by
  by_cases hut : u = t
  · subst hut
    simpa using hp
  · simp [hut]

omit [Fintype T] [DecidableEq S] [DecidableEq L] in
theorem midway_signal (ht : (s.pc t).midway = none) {all : Bool} (u : T) :
    ((s.signal t c all).pc u).midway = (s.pc u).midway := by
  cases hws : s.waiters c with
  | nil =>
      have hp : (Pc.outside : Pc T S L C).midway = (s.pc t).midway := ht.symm
      simpa [SynchState.signal, hws] using midway_setPc hp u
  | cons v vs =>
      have hp : (Pc.signalling c v all : Pc T S L C).midway = (s.pc t).midway := ht.symm
      have hmid := midway_setPc (s := s.setWaiters c vs) hp u
      simpa [SynchState.signal, hws] using hmid

omit [Fintype T] [DecidableEq C] in
/-- A thread takes the unit of the lock `l`. -/
theorem enters_acquire {l k : L} {v : T} {b : Bool} {σ : Semaphore T} (hb : b = true ↔ s.owns v k)
    (hmid : (s.pc t).midway = none) :
    (Act.down (.lock l) (some t) : Act T S L).enters k v b = true ↔
      ((s.setSema (.lock l) σ).setPc t (.got l)).owns v k := by
  rw [Locks.owns_acquire hmid, Act.enters, ← hb]
  by_cases heq : v = t ∧ k = l
  · rcases heq with ⟨rfl, rfl⟩
    simp
  · have hne : ¬ (SemaId.lock l = (.lock k : SemaId T S L) ∧ some t = some v) := by
      rintro ⟨hl, ht⟩
      exact heq ⟨(Option.some.inj ht).symm, (SemaId.lock.inj hl).symm⟩
    rw [if_neg hne]
    simp [heq]

/-- The label of a step says who gets and who gives up a lock. -/
theorem SynchInv.enters (h : SynchInv lockOf s)
    (hstep : SynchStep lockOf s a s') (v : T) (k : L) {b : Bool} (hb : b = true ↔ s.owns v k) :
    a.enters k v b = true ↔ s'.owns v k := by
  -- steps that change neither a holder nor who is midway
  have hsame : (∀ t, (s'.pc t).midway = (s.pc t).midway) → s'.holder = s.holder →
      a.enters k v b = b → (a.enters k v b = true ↔ s'.owns v k) := by
    intro hmid hholder heq
    rw [heq, hb]
    exact owns_congr hholder hmid v
  cases hstep with
  | sema_down x ht =>
      exact hsame (midway_setPc (by rw [ht]; rfl)) rfl rfl
  | @take t g ht hv =>
      rcases Nat.exists_eq_succ_of_ne_zero hv with ⟨n, hn⟩
      have hmid : (s.pc t).midway = none := by rcases ht with ht | ht <;> rw [ht] <;> rfl
      rw [down_take hn] at hsame ⊢
      cases g with
      | sema x =>
          exact hsame (midway_setPc (s := s.setSema _ _) hmid.symm) rfl (by simp [Act.enters, Goal.target])
      | lock l =>
          exact enters_acquire hb hmid
      | cond c =>
          exact hsame (midway_setPc (s := s.setSema _ _) hmid.symm) rfl (by simp [Act.enters, Goal.target])
  | @block t g ht hv =>
      have hmid : (s.pc t).midway = none := by rcases ht with ht | ht <;> rw [ht] <;> rfl
      rw [down_block hv] at hsame ⊢
      exact hsame (midway_setPc (s := s.setSema _ _) hmid.symm) rfl rfl
  | sema_up x _ =>
      exact hsame (fun t => s.up_midway _ t) (by simp) (by simp [Act.enters])
  | sema_try_down x hok =>
      exact hsame (fun _ => rfl) rfl (by simp [Act.enters])
  | lock_acquire l ht _ =>
      exact hsame (midway_setPc (by rw [ht]; rfl)) rfl rfl
  | @lock_try_acquire t l ht _ hok =>
      exact enters_acquire hb (by rw [ht]; rfl)
  | @set_holder t l ht =>
      exact hb.trans (h.locks.owns_hold (by rw [ht]; rfl) rfl v k).symm
  | @lock_release t l ht hheld =>
      exact hb.trans (h.locks.owns_let_go hheld (by rw [ht]; rfl) none v k).symm
  | @release_up t l c ht =>
      rw [h.locks.owns_release (by rw [ht]; rfl) (by cases c <;> rfl), Act.enters, ← hb]
      by_cases heq : v = t ∧ k = l
      · rcases heq with ⟨rfl, rfl⟩
        simp
      · have hne : ¬ (SemaId.lock l = (.lock k : SemaId T S L) ∧ some t = some v) := by
          rintro ⟨hl, ht'⟩
          exact heq ⟨(Option.some.inj ht').symm, (SemaId.lock.inj hl).symm⟩
        rw [if_neg hne]
        simp [heq]
  | @cond_wait t c ht hheld =>
      refine hsame (fun u => ?_) rfl rfl
      exact midway_setPc (s := (s.setSema (.waiter t) (sema_init 0)).setWaiters c
        (s.waiters c ++ [t])) (by rw [SynchState.setWaiters_pc, SynchState.setSema_pc, ht]; rfl) u
  | @wait_release t c ht =>
      have hheld := h.locks.held t c (by rw [ht]; rfl)
      exact hb.trans (h.locks.owns_let_go hheld (by rw [ht]; rfl) (some c) v k).symm
  | @cond_signal t c ht hheld =>
      exact hsame (midway_signal (by rw [ht]; rfl)) (by unfold SynchState.signal; split <;> rfl) rfl
  | @cond_broadcast t c ht hheld =>
      exact hsame (midway_setPc (by rw [ht]; rfl)) rfl rfl
  | @broadcast_loop t c ht =>
      exact hsame (midway_signal (by rw [ht]; rfl)) (by unfold SynchState.signal; split <;> rfl) rfl
  | @signal_up t u c all ht =>
      refine hsame (fun w => ?_) (s.up_holder _) (by simp [Act.enters])
      rw [midway_setPc (s := s.up (.waiter u)), s.up_midway]
      rw [s.up_midway, ht]
      cases all <;> rfl

/-! ## Runs -/

theorem SynchInv.init {v : S → Nat} (h0 : (synchSystem lockOf v).init s) : SynchInv lockOf s := by
  rcases h0 with ⟨hsema, hlock, hwaiter, hholder, hwaiters, hpc⟩
  have hnil : ∀ x, (s.sema x).waiters = [] := by
    intro x
    cases x with
    | sema x =>
        rw [hsema, sema_init_waiters]
    | lock l =>
        rw [hlock, sema_init_waiters]
    | waiter t =>
        rw [hwaiter, sema_init_waiters]
  refine ⟨⟨fun x t => ?_, fun x => ?_, fun x hx => absurd (hnil x) hx⟩,
    ⟨fun l => ⟨none, fun t => ?_, ?_⟩, fun t l ht => ?_, fun t c ht => ?_⟩,
    ⟨fun c => ?_, fun c u hu => ?_, fun t c u all ht => ?_, fun c u hu => ?_, fun c u hu => ?_⟩⟩
  · simp [hnil, hpc, Pc.sleepsAt]
  · simp [hnil]
  · simp [SynchState.owns, hholder, hpc]
  · rw [hlock]
    rfl
  · simp [hpc] at ht
  · simp [hpc, Pc.busyWith] at ht
  · simp [hwaiters]
  · simp [hwaiters] at hu
  · simp [hpc] at ht
  · simp [hpc] at hu
  · simp [hpc] at hu

/-- What the labels of a run say of the state it ends in. -/
theorem synch_run_labels {v : S → Nat} {s₀ s : SynchState T S L C} {acts : List (Act T S L)}
    (h0 : (synchSystem lockOf v).init s₀) (hrun : (synchSystem lockOf v).Exec s₀ acts s) :
    SynchInv lockOf s ∧ (∀ x, ((s.sema x).value : Int) = units x acts (s₀.sema x).value) ∧
      ∀ l t, inside l t acts = true ↔ s.owns t l := by
  induction hrun with
  | nil =>
      refine ⟨SynchInv.init h0, fun _ => rfl, fun l t => ?_⟩
      rcases h0 with ⟨_, _, _, hholder, _, hpc⟩
      simp [inside, SynchState.owns, hholder, hpc]
  | @snoc s s' acts a _ hst ih =>
      rcases ih with ⟨hinv, hunits, hinside⟩
      refine ⟨hinv.step hst, fun x => ?_, fun l t => ?_⟩
      · rw [hinv.effect hst x, hunits x, units, units, List.foldl_append]
        rfl
      · have henters := hinv.enters hst t l (hinside l t)
        rwa [inside, List.foldl_append]

/-- What a call of `cond_signal` does when threads wait: it takes one off the list, ups that
thread's semaphore and no other, and that thread, asleep or not, gets past its `sema_down`; the
others sleep on or will go to sleep. -/
structure SignalGood (s : SynchState T S L C) : Prop where
  one_taken : ∀ t c u us all, s.waiters c = u :: us →
    u ∉ us ∧ (s.signal t c all).waiters c = us ∧ (s.signal t c all).pc t = .signalling c u all ∧
      (s.signal t c all).sema = s.sema ∧ ∀ w, w ≠ t → (s.signal t c all).pc w = s.pc w
  one_woken : ∀ t c u all, s.pc t = .signalling c u all →
    (s.pc u).waitsFor = some c ∧ (s.sema (.waiter u)).value = 0 ∧
      ((s.up (.waiter u)).sema (.waiter u)).value = 1 ∧
      (s.up (.waiter u)).pc u ≠ .asleep (.cond c) ∧
      ∀ w, w ≠ u → (s.up (.waiter u)).pc w = s.pc w ∧
        (s.up (.waiter u)).sema (.waiter w) = s.sema (.waiter w)
  still : ∀ c w, w ∈ s.waiters c →
    (s.sema (.waiter w)).value = 0 ∧ s.pc w ≠ .woken (.cond c)
  through : ∀ c u, (s.pc u).waitsFor = some c → (s.sema (.waiter u)).value = 1 →
    s.pc u ≠ .asleep (.cond c)

theorem SynchInv.signal_good (h : SynchInv lockOf s) : SignalGood s where
  one_taken t c u us all hus := by
    have hnodup := h.conds.nodup c
    rw [hus, List.nodup_cons] at hnodup
    refine ⟨hnodup.1, by simp [SynchState.signal, hus], by simp [SynchState.signal, hus],
      by simp only [SynchState.signal, hus]; rfl, fun w hw => by simp [SynchState.signal, hus, hw]⟩
  one_woken t c u all ht := by
    rcases h.conds.aimed t c u all ht with ⟨hwaits, _, hzero⟩
    refine ⟨hwaits, hzero, by simp [sema_up, hzero], h.queues.up_waiter_self u c, fun w hw => ?_⟩
    exact ⟨h.queues.up_waiter hw, by simp [hw]⟩
  still c w hw := by
    have hzero := (h.conds.listed c w hw).2
    refine ⟨hzero, fun hwoken => ?_⟩
    have hone := h.conds.woken c w hwoken
    omega
  through c u hu hone := by
    rcases h.conds.served c u hu with hlist | ⟨t, all, ht⟩ | ⟨_, hne⟩
    · have hzero := (h.conds.listed c u hlist).2
      omega
    · have hzero := (h.conds.aimed t c u all ht).2.2
      omega
    · exact hne

/-- At the end of every run: the value of a semaphore is what the labels add up to; nobody sleeps
on it while a unit is there that no unblocked thread is on its way to test; at most one thread is
between the acquisition and the release of a lock, and nobody else is its holder; and a signal
wakes exactly one of the threads on the list. -/
theorem synch_runs_good {v : S → Nat} {s₀ s : SynchState T S L C} {acts : List (Act T S L)}
    (h0 : (synchSystem lockOf v).init s₀) (hrun : (synchSystem lockOf v).Exec s₀ acts s) :
    (∀ x, ((s.sema x).value : Int) = units x acts (s₀.sema x).value) ∧
    (∀ x, (s.sema x).waiters ≠ [] → ((s.sema x).value : Int) ≤ s.wokenOn x) ∧
    (∀ l t u, inside l t acts = true → inside l u acts = true → t = u) ∧
    (∀ l t, s.holder l = some t → inside l t acts = true) ∧
    SignalGood s := by
  rcases synch_run_labels h0 hrun with ⟨hinv, hunits, hinside⟩
  refine ⟨hunits, hinv.queues.claimed, fun l t u ht hu => ?_, fun l t ht => ?_, hinv.signal_good⟩
  · exact hinv.locks.owner_unique ((hinside l t).1 ht) ((hinside l u).1 hu)
  · exact (hinside l t).2 (Or.inl ht)

/-- One lock and its condition, two threads: the first has released the lock in `cond_wait` but not
yet slept when the second signals it. -/
theorem synch_runs_good_two : ∃ (acts : List (Act (Fin 2) Unit Unit))
    (s : SynchState (Fin 2) Unit Unit Unit), s.pc 0 = .test (.cond ()) ∧ s.waiters () = [] ∧
      ((s.sema (.waiter 0)).value : Int) = units (.waiter 0) acts 0 ∧ units (.waiter 0) acts 0 = 1 ∧
      inside () 1 acts = true := by
  let s₀ : SynchState (Fin 2) Unit Unit Unit := ⟨fun x => match x with
    | .lock _ => sema_init 1
    | _ => sema_init 0, fun _ => none, fun _ => [], fun _ => .outside⟩
  have h0 : (synchSystem (fun _ : Unit => ()) fun _ : Unit => 0).init s₀ :=
    ⟨fun _ => rfl, fun _ => rfl, fun _ => rfl, fun _ => rfl, fun _ => rfl, fun _ => rfl⟩
  have r0 := System.Exec.nil (M := synchSystem (fun _ : Unit => ()) fun _ : Unit => 0) s₀
  have r1 := r0.snoc (.lock_acquire (t := 0) () rfl (by decide))
  have r2 := r1.snoc (.take (t := 0) (Or.inl rfl) (by decide))
  have r3 := r2.snoc (.set_holder (t := 0) rfl)
  have r4 := r3.snoc (.cond_wait (t := 0) () rfl rfl)
  have r5 := r4.snoc (.wait_release (t := 0) rfl)
  have r6 := r5.snoc (.release_up (t := 0) rfl)
  have r7 := r6.snoc (.lock_acquire (t := 1) () rfl (by decide))
  have r8 := r7.snoc (.take (t := 1) (Or.inl rfl) (by decide))
  have r9 := r8.snoc (.set_holder (t := 1) rfl)
  have r10 := r9.snoc (.cond_signal (t := 1) () rfl rfl)
  have r11 := r10.snoc (.signal_up (t := 1) rfl)
  rcases synch_runs_good h0 r11 with ⟨hunits, _, _, hholder, _⟩
  refine ⟨_, _, ?_, ?_, hunits (.waiter 0), ?_, hholder () 1 rfl⟩ <;> rfl

end Berk162
