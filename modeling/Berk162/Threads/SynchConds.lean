import Berk162.Threads.SynchInv

/-!
# SynchConds — who waits on a condition, and what has become of its signal

A thread in `cond_wait` is on the list of its condition, or some thread has taken it off the list
and is about to up its semaphore, or its semaphore is up.  In the last case it does not sleep,
whether or not it had gone to sleep before.
-/

namespace Berk162

variable {T S L C : Type}

structure Conds (s : SynchState T S L C) : Prop where
  nodup : ∀ c, (s.waiters c).Nodup
  listed : ∀ c u, u ∈ s.waiters c →
    (s.pc u).waitsFor = some c ∧ (s.sema (.waiter u)).value = 0
  aimed : ∀ t c u all, s.pc t = .signalling c u all →
    (s.pc u).waitsFor = some c ∧ u ∉ s.waiters c ∧ (s.sema (.waiter u)).value = 0
  woken : ∀ c u, s.pc u = .woken (.cond c) → (s.sema (.waiter u)).value = 1
  served : ∀ c u, (s.pc u).waitsFor = some c →
    u ∈ s.waiters c ∨ (∃ t all, s.pc t = .signalling c u all) ∨
      ((s.sema (.waiter u)).value = 1 ∧ s.pc u ≠ .asleep (.cond c))

theorem Goal.target_eq_waiter {t u : T} {g : Goal S L C} (h : g.target t = .waiter u) :
    t = u ∧ ∃ c, g = .cond c := by
  cases g with
  | cond c =>
      exact ⟨SemaId.waiter.inj h, c, rfl⟩
  | _ =>
      cases h

namespace Conds

variable {s s' : SynchState T S L C} {t u : T} {c : C} {p : Pc T S L C}

/-- Steps after which every thread is as far in `cond_wait` and `cond_signal` as before. -/
theorem congr (h : Conds s) (hwaiters : s'.waiters = s.waiters)
    (hvalue : ∀ u, (s'.sema (.waiter u)).value = (s.sema (.waiter u)).value)
    (hwaits : ∀ u, (s'.pc u).waitsFor = (s.pc u).waitsFor)
    (hsignal : ∀ u c v all, s'.pc u = .signalling c v all ↔ s.pc u = .signalling c v all)
    (hwoken : ∀ u c, s'.pc u = .woken (.cond c) → s.pc u = .woken (.cond c))
    (hasleep : ∀ u c, s'.pc u = .asleep (.cond c) → s.pc u = .asleep (.cond c)) : Conds s' where
  nodup c := by
    rw [hwaiters]
    exact h.nodup c
  listed c u hu := by
    rw [hwaits, hvalue]
    exact h.listed c u (by rwa [← hwaiters])
  aimed t c u all ht := by
    rw [hwaits, hvalue, hwaiters]
    exact h.aimed t c u all ((hsignal t c u all).1 ht)
  woken c u hu := by
    rw [hvalue]
    exact h.woken c u (hwoken u c hu)
  served c u hu := by
    rw [hwaiters, hvalue]
    rcases h.served c u (by rwa [← hwaits]) with hlist | ⟨t, all, ht⟩ | ⟨hone, hne⟩
    · exact Or.inl hlist
    · exact Or.inr (Or.inl ⟨t, all, (hsignal t c u all).2 ht⟩)
    · exact Or.inr (Or.inr ⟨hone, fun ha => hne (hasleep u c ha)⟩)

/-- A thread whose semaphore is up has been signalled. -/
theorem not_mem (h : Conds s) (hone : (s.sema (.waiter u)).value ≠ 0) (c : C) :
    u ∉ s.waiters c := fun hu => hone (h.listed c u hu).2

theorem not_aimed (h : Conds s) (hone : (s.sema (.waiter u)).value ≠ 0) (t : T) (c : C)
    (all : Bool) : s.pc t ≠ .signalling c u all := fun ht => hone (h.aimed t c u all ht).2.2

/-- A thread in no `cond_wait` is on no list. -/
theorem not_mem_of_waitsFor (h : Conds s) (hu : (s.pc u).waitsFor = none) (c : C) :
    u ∉ s.waiters c := by
  intro hmem
  have hc := (h.listed c u hmem).1
  rw [hu] at hc
  cases hc

theorem not_aimed_of_waitsFor (h : Conds s) (hu : (s.pc u).waitsFor = none) (t : T) (c : C)
    (all : Bool) : s.pc t ≠ .signalling c u all := by
  intro ht
  have hc := (h.aimed t c u all ht).1
  rw [hu] at hc
  cases hc

section

variable [DecidableEq T] [DecidableEq S] [DecidableEq L]

omit [DecidableEq S] [DecidableEq L] in
/-- A thread moves without getting further in `cond_wait` or `cond_signal`. -/
theorem move (h : Conds s) (hwaits : p.waitsFor = (s.pc t).waitsFor)
    (hsignal : (s.pc t).aim = none) (hsignal' : p.aim = none)
    (hwoken : ∀ c, p ≠ .woken (.cond c)) (hasleep : ∀ c, p ≠ .asleep (.cond c)) :
    Conds (s.setPc t p) := by
  refine h.congr rfl (fun _ => rfl) ?_ ?_ ?_ ?_
  · intro u
    by_cases hut : u = t
    · subst hut
      simpa using hwaits
    · simp [hut]
  · intro u c v all
    by_cases hut : u = t
    · subst hut
      constructor
      · intro hp
        have hp' : p = .signalling c v all := by simpa using hp
        rw [hp'] at hsignal'
        cases hsignal'
      · intro hp
        rw [hp] at hsignal
        cases hsignal
    · simp [hut]
  · intro u c hu
    by_cases hut : u = t
    · subst hut
      exact absurd (by simpa using hu) (hwoken c)
    · simpa [hut] using hu
  · intro u c hu
    by_cases hut : u = t
    · subst hut
      exact absurd (by simpa using hu) (hasleep c)
    · simpa [hut] using hu

omit [DecidableEq L] [DecidableEq S] in
/-- The thread finds its semaphore down and sleeps. -/
theorem sleep (h : Conds s) (ht : s.pc t = .test (.cond c))
    (hv : (s.sema (.waiter t)).value = 0) : Conds (s.setPc t (.asleep (.cond c))) where
  nodup := h.nodup
  listed c' u hu := by
    by_cases hut : u = t
    · subst hut
      have hl := h.listed c' u hu
      rw [ht] at hl
      simpa using hl
    · simpa [hut] using h.listed c' u hu
  aimed v c' u all hv' := by
    by_cases hvt : v = t
    · subst hvt
      simp at hv'
    · have ha := h.aimed v c' u all (by simpa [hvt] using hv')
      by_cases hut : u = t
      · subst hut
        rw [ht] at ha
        simpa using ha
      · simpa [hut] using ha
  woken c' u hu := by
    by_cases hut : u = t
    · subst hut
      simp at hu
    · exact h.woken c' u (by simpa [hut] using hu)
  served c' u hu := by
    by_cases hut : u = t
    · subst hut
      have hc : (s.pc u).waitsFor = some c' := by
        rw [ht]
        simpa using hu
      rcases h.served c' u hc with hlist | ⟨v, all, hv'⟩ | ⟨hone, _⟩
      · exact Or.inl hlist
      · refine Or.inr (Or.inl ⟨v, all, ?_⟩)
        have hvu : v ≠ u := by
          rintro rfl
          rw [ht] at hv'
          cases hv'
        simpa [hvu] using hv'
      · rw [hv] at hone
        cases hone
    · rcases h.served c' u (by simpa [hut] using hu) with hlist | ⟨v, all, hv'⟩ | ⟨hone, hne⟩
      · exact Or.inl hlist
      · refine Or.inr (Or.inl ⟨v, all, ?_⟩)
        have hvt : v ≠ t := by
          rintro rfl
          rw [ht] at hv'
          cases hv'
        simpa [hvt] using hv'
      · exact Or.inr (Or.inr ⟨hone, by simpa [hut] using hne⟩)

/-- A thread that was signalled takes its unit and goes for the lock. -/
theorem leave (h : Conds s) (ht : (s.pc t).waitsFor = some c) (hone : (s.sema (.waiter t)).value ≠ 0)
    (hsignal : (s.pc t).aim = none) {σ : Semaphore T} (hp : p.waitsFor = none)
    (hp' : p.aim = none) : Conds ((s.setSema (.waiter t) σ).setPc t p) where
  nodup := h.nodup
  listed c' u hu := by
    have hut : u ≠ t := by
      rintro rfl
      exact h.not_mem hone c' hu
    simpa [hut] using h.listed c' u hu
  aimed v c' u all hv := by
    by_cases hvt : v = t
    · subst hvt
      have hpv : p = .signalling c' u all := by simpa using hv
      rw [hpv] at hp'
      cases hp'
    · have hv' : s.pc v = .signalling c' u all := by simpa [hvt] using hv
      have hut : u ≠ t := by
        rintro rfl
        exact h.not_aimed hone v c' all hv'
      simpa [hut] using h.aimed v c' u all hv'
  woken c' u hu := by
    by_cases hut : u = t
    · subst hut
      have hpu : p = .woken (.cond c') := by simpa using hu
      rw [hpu] at hp
      cases hp
    · have hw := h.woken c' u (by simpa [hut] using hu)
      simpa [hut] using hw
  served c' u hu := by
    by_cases hut : u = t
    · subst hut
      simp [hp] at hu
    · rcases h.served c' u (by simpa [hut] using hu) with hlist | ⟨v, all, hv⟩ | ⟨hone', hne⟩
      · exact Or.inl hlist
      · refine Or.inr (Or.inl ⟨v, all, ?_⟩)
        have hvt : v ≠ t := by
          rintro rfl
          rw [hv] at hsignal
          cases hsignal
        simpa [hvt] using hv
      · exact Or.inr (Or.inr ⟨by simpa [hut] using hone', by simpa [hut] using hne⟩)

/-- A thread goes on the list, with its semaphore down. -/
theorem publish [DecidableEq C] (h : Conds s) (ht : s.pc t = .outside) (c : C) :
    Conds (((s.setSema (.waiter t) (sema_init 0)).setWaiters c (s.waiters c ++ [t])).setPc t
      (.published c)) := by
  have hnone : (s.pc t).waitsFor = none := by
    rw [ht]
    rfl
  have hmem := h.not_mem_of_waitsFor hnone
  have haim := h.not_aimed_of_waitsFor hnone
  have hother : ∀ v c' u all, s.pc v = .signalling c' u all → v ≠ t := by
    rintro v c' u all hv rfl
    rw [ht] at hv
    cases hv
  constructor
  · intro c'
    by_cases hcc : c' = c
    · subst hcc
      simpa [List.nodup_append, h.nodup] using fun a ha => ne_of_mem_of_not_mem ha (hmem c')
    · simpa [hcc] using h.nodup c'
  · intro c' u hu
    by_cases hut : u = t
    · subst hut
      have hcc : c' = c := by
        by_contra hcc
        exact hmem c' (by simpa [hcc] using hu)
      subst hcc
      simp
    · have hu' : u ∈ s.waiters c' := by
        by_cases hcc : c' = c
        · subst hcc
          simpa [hut] using hu
        · simpa [hcc] using hu
      simpa [hut] using h.listed c' u hu'
  · intro v c' u all hv
    have hvt : v ≠ t := by
      rintro rfl
      simp at hv
    have hv' : s.pc v = .signalling c' u all := by simpa [hvt] using hv
    have hut : u ≠ t := by
      rintro rfl
      exact haim v c' all hv'
    rcases h.aimed v c' u all hv' with ⟨hw, hnot, hzero⟩
    refine ⟨by simpa [hut] using hw, ?_, by simpa [hut] using hzero⟩
    by_cases hcc : c' = c
    · subst hcc
      simpa [hut] using hnot
    · simpa [hcc] using hnot
  · intro c' u hu
    have hut : u ≠ t := by
      rintro rfl
      simp at hu
    simpa [hut] using h.woken c' u (by simpa [hut] using hu)
  · intro c' u hu
    by_cases hut : u = t
    · subst hut
      have hcc : c = c' := by simpa using hu
      subst hcc
      simp
    · rcases h.served c' u (by simpa [hut] using hu) with hlist | ⟨v, all, hv⟩ | ⟨hone, hne⟩
      · left
        by_cases hcc : c' = c
        · subst hcc
          simp [hlist]
        · simpa [hcc] using hlist
      · exact Or.inr (Or.inl ⟨v, all, by simpa [hother v c' u all hv] using hv⟩)
      · exact Or.inr (Or.inr ⟨by simpa [hut] using hone, by simpa [hut] using hne⟩)

omit [DecidableEq S] [DecidableEq L] in
/-- The head of the list is taken off it, to be signalled. -/
theorem pop [DecidableEq C] (h : Conds s) (ht : (s.pc t).waitsFor = none)
    (hsignal : (s.pc t).aim = none) {us : List T} (hus : s.waiters c = u :: us) (all : Bool) :
    Conds ((s.setWaiters c us).setPc t (.signalling c u all)) := by
  have hnodup := h.nodup c
  rw [hus, List.nodup_cons] at hnodup
  have hu := h.listed c u (by simp [hus])
  have hut : u ≠ t := by
    rintro rfl
    rw [ht] at hu
    cases hu.1
  have hsub : ∀ c' v, v ∈ (Function.update s.waiters c us) c' → v ∈ s.waiters c' := by
    intro c' v hv
    by_cases hcc : c' = c
    · subst hcc
      rw [hus]
      exact List.mem_cons_of_mem u (by simpa using hv)
    · simpa [hcc] using hv
  constructor
  · intro c'
    by_cases hcc : c' = c
    · subst hcc
      simpa using hnodup.2
    · simpa [hcc] using h.nodup c'
  · intro c' v hv
    have hl := h.listed c' v (hsub c' v hv)
    have hvt : v ≠ t := by
      rintro rfl
      rw [ht] at hl
      cases hl.1
    simpa [hvt] using hl
  · intro v c' w all' hv
    by_cases hvt : v = t
    · subst hvt
      have heq : c = c' ∧ u = w ∧ all = all' := by simpa using hv
      rcases heq with ⟨rfl, rfl, rfl⟩
      exact ⟨by simpa [hut] using hu.1, by simpa using hnodup.1, hu.2⟩
    · rcases h.aimed v c' w all' (by simpa [hvt] using hv) with ⟨hw, hnot, hzero⟩
      have hwt : w ≠ t := by
        rintro rfl
        rw [ht] at hw
        cases hw
      exact ⟨by simpa [hwt] using hw, fun hmem => hnot (hsub c' w hmem), hzero⟩
  · intro c' v hv
    have hvt : v ≠ t := by
      rintro rfl
      simp at hv
    exact h.woken c' v (by simpa [hvt] using hv)
  · intro c' v hv
    have hvt : v ≠ t := by
      rintro rfl
      simp at hv
    have hv' : (s.pc v).waitsFor = some c' := by simpa [hvt] using hv
    rcases h.served c' v hv' with hlist | ⟨w, all', hw⟩ | ⟨hone, hne⟩
    · by_cases hcc : c' = c
      · subst hcc
        rw [hus, List.mem_cons] at hlist
        rcases hlist with rfl | hlist
        · exact Or.inr (Or.inl ⟨t, all, by simp⟩)
        · exact Or.inl (by simpa using hlist)
      · exact Or.inl (by simpa [hcc] using hlist)
    · have hwt : w ≠ t := by
        rintro rfl
        rw [hw] at hsignal
        cases hsignal
      exact Or.inr (Or.inl ⟨w, all', by simpa [hwt] using hw⟩)
    · exact Or.inr (Or.inr ⟨hone, by simpa [hvt] using hne⟩)

end

end Conds

end Berk162
