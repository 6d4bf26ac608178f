import Berk162.Threads.RwLock

/-!
# RwLockRuns — exclusion and wake-ups of the readers-writers lock over whole runs

The invariant says what the four counters count, who is on the lists of waiters, and why anybody
who sleeps will be woken: a sleeping reader has a writer to wait for, active or waiting, and a
sleeping writer has somebody active to wait for, or a signalled writer that has yet to run.
-/

namespace Berk162

/-- The party holds the lock in this role. -/
def Phase.holds (reader : Bool) : Phase → Bool
  | .active r => r == reader
  | .release r => r == reader
  | _ => false

/-- The party waits in this role, signalled or not. -/
def Phase.waits (reader : Bool) : Phase → Bool
  | .asleep r => r == reader
  | .signalled r => r == reader
  | _ => false

section

variable {T : Type} [Fintype T]

/-- The counters are the numbers that `n` gives for the parties that each of them counts. -/
structure Tallied (l : RwLock T) (n : (Phase → Bool) → Int) : Prop where
  AR : l.AR = n (Phase.holds true)
  WR : l.WR = n (Phase.waits true)
  AW : l.AW = n (Phase.holds false)
  WW : l.WW = n (Phase.waits false)

/-- The number of parties other than `t` that satisfy `p`. -/
def RwState.others (s : RwState T) (t : T) (p : Phase → Bool) : Int :=
  tally p s.phase - vote (p (s.phase t))

/-- The lists of waiters hold the parties that sleep. -/
structure Queued (s : RwState T) : Prop where
  mem_iff : ∀ r t, t ∈ s.lock.cond r ↔ s.phase t = .asleep r
  nodup : ∀ r, (s.lock.cond r).Nodup

/-- The invariant of the readers-writers lock. -/
structure RwInv (s : RwState T) : Prop where
  tallied : Tallied s.lock fun p => tally p s.phase
  queued : Queued s
  one_writer : s.lock.AW ≤ 1
  excl : s.lock.AW = 0 ∨ s.lock.AR = 0
  read_asleep : ∀ t, s.phase t = .asleep true → s.lock.AW + s.lock.WW > 0
  write_asleep : ∀ t, s.phase t = .asleep false →
    s.lock.AR + s.lock.AW > 0 ∨ ∃ u, s.phase u = .signalled false

end

/-! ## Queueing -/

section

variable {T : Type} [DecidableEq T] {s : RwState T} {t : T}

/-- A party that does not sleep changes to a phase in which it does not sleep. -/
theorem Queued.setPhase (h : Queued s) {p : Phase} (ht : ∀ r, s.phase t ≠ .asleep r)
    (hp : ∀ r, p ≠ .asleep r) {l : RwLock T} (hl : ∀ r, l.cond r = s.lock.cond r) :
    Queued ((s.setLock l).setPhase t p) := by
  refine ⟨fun r u => ?_, fun r => ?_⟩
  · rw [RwState.setPhase_lock, RwState.setLock_lock, hl, h.mem_iff]
    by_cases hu : u = t
    · subst hu
      rw [RwState.setPhase_self]
      exact iff_of_false (ht r) (hp r)
    · rw [RwState.setPhase_of_ne _ _ hu, RwState.setLock_phase]
  · rw [RwState.setPhase_lock, RwState.setLock_lock, hl]
    exact h.nodup r

/-- `cond_wait` puts the caller at the end of its list. -/
theorem Queued.wait (h : Queued s) {reader : Bool} (ht : ∀ r, s.phase t ≠ .asleep r)
    {l : RwLock T} (hl : ∀ r, l.cond r = s.lock.cond r) :
    Queued (cond_wait (s.setLock l) reader t) := by
  have hnot : t ∉ s.lock.cond reader := fun hm => ht reader ((h.mem_iff reader t).1 hm)
  refine ⟨fun r u => ?_, fun r => ?_⟩
  · simp only [cond_wait, RwState.setPhase_lock, RwState.setLock_lock]
    by_cases hr : r = reader
    · subst hr
      rw [RwLock.cond_setCond_self, hl, List.mem_append, List.mem_singleton, h.mem_iff]
      by_cases hu : u = t
      · subst hu
        simp
      · rw [RwState.setPhase_of_ne _ _ hu]
        simp [hu]
    · rw [RwLock.cond_setCond_of_ne _ _ _ hr, hl, h.mem_iff]
      by_cases hu : u = t
      · subst hu
        rw [RwState.setPhase_self]
        refine iff_of_false (ht r) fun heq => hr ?_
        cases heq
        rfl
      · rw [RwState.setPhase_of_ne _ _ hu]
        rfl
  · simp only [cond_wait, RwState.setPhase_lock, RwState.setLock_lock]
    by_cases hr : r = reader
    · subst hr
      rw [RwLock.cond_setCond_self, hl]
      exact (h.nodup r).append (List.nodup_singleton t) (List.disjoint_singleton.2 hnot)
    · rw [RwLock.cond_setCond_of_ne _ _ _ hr, hl]
      exact h.nodup r

end

/-! ## Counting -/

variable {T : Type} [DecidableEq T] [Fintype T] {s : RwState T} {t : T}

namespace RwState

theorem tally_setPhase (s : RwState T) (t : T) (p : Phase) (q : Phase → Bool) :
    tally q (s.setPhase t p).phase = s.others t q + vote (q p) :=
  tally_update q s.phase t p

theorem others_nonneg (s : RwState T) (t : T) (q : Phase → Bool) : 0 ≤ s.others t q := by
  have hsplit := s.tally_setPhase t .out q
  by_cases hq : q (s.phase t) = true
  · have hpos : 0 < tally q s.phase := tally_pos_iff.2 ⟨t, hq⟩
    rw [others, hq, vote_true]
    omega
  · rw [others, Bool.eq_false_of_not_eq_true hq, vote_false]
    have hnn := tally_nonneg q s.phase
    omega

end RwState

omit [DecidableEq T] in
/-- If `t` is not counted anywhere, leaving it out makes no difference. -/
theorem Tallied.leave (h : Tallied s.lock fun p => tally p s.phase)
    (hholds : ∀ r, (s.phase t).holds r = false) (hwaits : ∀ r, (s.phase t).waits r = false) :
    Tallied s.lock (s.others t) := by
  refine ⟨?_, ?_, ?_, ?_⟩
  · rw [h.AR, RwState.others, hholds, vote_false, sub_zero]
  · rw [h.WR, RwState.others, hwaits, vote_false, sub_zero]
  · rw [h.AW, RwState.others, hholds, vote_false, sub_zero]
  · rw [h.WW, RwState.others, hwaits, vote_false, sub_zero]

/-- Counting `t` in again, in its new phase. -/
theorem Tallied.join {l : RwLock T} {p : Phase}
    (hAR : l.AR = s.others t (Phase.holds true) + vote (p.holds true))
    (hWR : l.WR = s.others t (Phase.waits true) + vote (p.waits true))
    (hAW : l.AW = s.others t (Phase.holds false) + vote (p.holds false))
    (hWW : l.WW = s.others t (Phase.waits false) + vote (p.waits false)) :
    Tallied l fun q => tally q (s.setPhase t p).phase := by
  refine ⟨?_, ?_, ?_, ?_⟩
  · rw [hAR, RwState.tally_setPhase]
  · rw [hWR, RwState.tally_setPhase]
  · rw [hAW, RwState.tally_setPhase]
  · rw [hWW, RwState.tally_setPhase]

theorem RwState.others_pos {u : T} {r : Bool} (hu : u ≠ t) (hw : (s.phase u).waits r = true) :
    0 < s.others t (Phase.waits r) := by
  have hsplit := s.tally_setPhase t .out (Phase.waits r)
  have hpos : 0 < tally (Phase.waits r) (s.setPhase t .out).phase := by
    refine tally_pos_iff.2 ⟨u, ?_⟩
    rw [RwState.setPhase_of_ne _ _ hu]
    exact hw
  have hout : vote (Phase.out.waits r) = 0 := rfl
  omega

/-! ## Inside a section

While `t` runs a section its phase says nothing: the counters count everybody else. -/

structure RwPre (s : RwState T) (t : T) : Prop where
  tallied : Tallied s.lock (s.others t)
  queued : Queued s
  awake : ∀ r, s.phase t ≠ .asleep r
  one_writer : s.lock.AW ≤ 1
  excl : s.lock.AW = 0 ∨ s.lock.AR = 0

theorem acquire_test_reader (h : RwPre s t)
    (hread : ∀ u, s.phase u = .asleep true → s.lock.AW + s.lock.WW > 0)
    (hwrite : ∀ u, s.phase u = .asleep false →
      s.lock.AR + s.lock.AW > 0 ∨ ∃ w, w ≠ t ∧ s.phase w = .signalled false) :
    RwInv (acquire_test s t true) := by
  have hAR := h.tallied.AR
  have hWR := h.tallied.WR
  have hAW := h.tallied.AW
  have hWW := h.tallied.WW
  have hAR0 := s.others_nonneg t (Phase.holds true)
  have hAW0 := s.others_nonneg t (Phase.holds false)
  have hWW0 := s.others_nonneg t (Phase.waits false)
  -- a sleeping writer keeps its reason to sleep, whichever way the test goes
  have hkeep : ∀ (s' : RwState T), (∀ u, u ≠ t → s'.phase u = s.phase u) →
      s'.phase t ≠ .asleep false → s'.lock.AR + s'.lock.AW ≥ s.lock.AR + s.lock.AW →
      ∀ u, s'.phase u = .asleep false →
        s'.lock.AR + s'.lock.AW > 0 ∨ ∃ w, s'.phase w = .signalled false := by
    intro s' hsame ht hle u hu
    have hut : u ≠ t := fun he => ht (he ▸ hu)
    rw [hsame u hut] at hu
    rcases hwrite u hu with hpos | ⟨w, hwt, hw⟩
    · exact Or.inl (by omega)
    · exact Or.inr ⟨w, by rw [hsame w hwt, hw]⟩
  by_cases hblock : s.lock.AW + s.lock.WW > 0
  · have hres : acquire_test s t true =
        cond_wait (s.setLock (s.lock.addWR 1)) true t := by
      simp [acquire_test, hblock]
    have hsame : ∀ u, u ≠ t → (acquire_test s t true).phase u = s.phase u := by
      intro u hu
      rw [hres, cond_wait, RwState.setPhase_of_ne _ _ hu]
      rfl
    have hself : (acquire_test s t true).phase t = .asleep true := by
      rw [hres, cond_wait, RwState.setPhase_self]
    refine ⟨?_, ?_, ?_, ?_, ?_, ?_⟩
    · rw [hres]
      refine Tallied.join (s := s) ?_ ?_ ?_ ?_ <;>
        simp [cond_wait, hAR, hWR, hAW, hWW, Phase.holds, Phase.waits]
    · rw [hres]
      exact h.queued.wait h.awake fun r => by cases r <;> rfl
    · rw [hres]
      simpa [cond_wait] using h.one_writer
    · rw [hres]
      simpa [cond_wait] using h.excl
    · intro u _
      rw [hres]
      simpa [cond_wait] using hblock
    · refine hkeep _ hsame ?_ ?_
      · rw [hself]
        decide
      · rw [hres]
        simp [cond_wait]
  · have hres : acquire_test s t true =
        (s.setLock (s.lock.addAR 1)).setPhase t (.active true) := by
      simp [acquire_test, hblock]
    have hsame : ∀ u, u ≠ t → (acquire_test s t true).phase u = s.phase u := by
      intro u hu
      rw [hres, RwState.setPhase_of_ne _ _ hu]
      rfl
    have hself : (acquire_test s t true).phase t = .active true := by
      rw [hres, RwState.setPhase_self]
    refine ⟨?_, ?_, ?_, ?_, ?_, ?_⟩
    · rw [hres]
      refine Tallied.join (s := s) ?_ ?_ ?_ ?_ <;>
        simp [hAR, hWR, hAW, hWW, Phase.holds, Phase.waits]
    · rw [hres]
      exact h.queued.setPhase h.awake (by decide) fun r => by cases r <;> rfl
    · rw [hres]
      exact h.one_writer
    · rw [hres]
      refine Or.inl ?_
      simp only [RwState.setPhase_lock, RwState.setLock_lock, RwLock.addAR_AW]
      omega
    · intro u hu
      have hut : u ≠ t := by
        rintro rfl
        rw [hself] at hu
        cases hu
      rw [hsame u hut] at hu
      exact absurd (hread u hu) hblock
    · refine hkeep _ hsame ?_ ?_
      · rw [hself]
        decide
      · rw [hres]
        simp only [RwState.setPhase_lock, RwState.setLock_lock, RwLock.addAR_AR, RwLock.addAR_AW]
        omega

theorem acquire_test_writer (h : RwPre s t) : RwInv (acquire_test s t false) := by
  have hAR := h.tallied.AR
  have hWR := h.tallied.WR
  have hAW := h.tallied.AW
  have hWW := h.tallied.WW
  have hAR0 := s.others_nonneg t (Phase.holds true)
  have hAW0 := s.others_nonneg t (Phase.holds false)
  have hWW0 := s.others_nonneg t (Phase.waits false)
  by_cases hblock : s.lock.AR + s.lock.AW > 0
  · have hres : acquire_test s t false =
        cond_wait (s.setLock (s.lock.addWW 1)) false t := by
      simp [acquire_test, hblock]
    rw [hres]
    refine ⟨?_, ?_, ?_, ?_, ?_, ?_⟩
    · refine Tallied.join (s := s) ?_ ?_ ?_ ?_ <;>
        simp [cond_wait, hAR, hWR, hAW, hWW, Phase.holds, Phase.waits]
    · exact h.queued.wait h.awake fun r => by cases r <;> rfl
    · simpa [cond_wait] using h.one_writer
    · simpa [cond_wait] using h.excl
    · intro u _
      simp only [cond_wait, RwState.setPhase_lock, RwState.setLock_lock, RwLock.setCond_AW,
        RwLock.setCond_WW, RwLock.addWW_AW, RwLock.addWW_WW]
      omega
    · intro u _
      exact Or.inl (by simpa [cond_wait] using hblock)
  · have hres : acquire_test s t false =
        (s.setLock (s.lock.addAW 1)).setPhase t (.active false) := by
      simp [acquire_test, hblock]
    rw [hres]
    refine ⟨?_, ?_, ?_, ?_, ?_, ?_⟩
    · refine Tallied.join (s := s) ?_ ?_ ?_ ?_ <;>
        simp [hAR, hWR, hAW, hWW, Phase.holds, Phase.waits]
    · exact h.queued.setPhase h.awake (by decide) fun r => by cases r <;> rfl
    · simp only [RwState.setPhase_lock, RwState.setLock_lock, RwLock.addAW_AW]
      omega
    · simp only [RwState.setPhase_lock, RwState.setLock_lock, RwLock.addAW_AW, RwLock.addAW_AR]
      omega
    · intro u _
      simp only [RwState.setPhase_lock, RwState.setLock_lock, RwLock.addAW_AW, RwLock.addAW_WW]
      omega
    · intro u _
      simp only [RwState.setPhase_lock, RwState.setLock_lock, RwLock.addAW_AW, RwLock.addAW_AR]
      omega

/-- What signalling changes: some sleepers are signalled, and nothing else happens. -/
structure Signals (s s' : RwState T) (t : T) : Prop where
  AR : s'.lock.AR = s.lock.AR
  WR : s'.lock.WR = s.lock.WR
  AW : s'.lock.AW = s.lock.AW
  WW : s'.lock.WW = s.lock.WW
  self : s'.phase t = s.phase t
  asleep : ∀ u r, s'.phase u = .asleep r → s.phase u = .asleep r

omit [DecidableEq T] [Fintype T] in
theorem Signals.trans {s s' s'' : RwState T} (h : Signals s s' t) (h' : Signals s' s'' t) :
    Signals s s'' t :=
  ⟨h'.AR.trans h.AR, h'.WR.trans h.WR, h'.AW.trans h.AW, h'.WW.trans h.WW, h'.self.trans h.self,
    fun u r hu => h.asleep u r (h'.asleep u r hu)⟩

theorem cond_signal_spec (h : RwPre s t) (reader : Bool) :
    RwPre (cond_signal s reader) t ∧ Signals s (cond_signal s reader) t ∧
      (cond_signal s reader).lock.cond reader = (s.lock.cond reader).tail ∧
      ((∃ u, s.phase u = .asleep reader) →
        ∃ u, u ≠ t ∧ (cond_signal s reader).phase u = .signalled reader) := by
  cases hcond : s.lock.cond reader with
  | nil =>
      have hres : cond_signal s reader = s := by simp [cond_signal, hcond]
      rw [hres]
      refine ⟨h, ⟨rfl, rfl, rfl, rfl, rfl, fun _ _ hu => hu⟩, hcond, ?_⟩
      rintro ⟨u, hu⟩
      have hmem := (h.queued.mem_iff reader u).2 hu
      rw [hcond] at hmem
      cases hmem
  | cons w ws =>
      have hres : cond_signal s reader =
          (s.setLock (s.lock.setCond reader ws)).setPhase w (.signalled reader) := by
        simp [cond_signal, hcond]
      have hw : s.phase w = .asleep reader := by
        rw [← h.queued.mem_iff, hcond]
        exact List.mem_cons_self
      have hwt : w ≠ t := fun he => h.awake reader (he ▸ hw)
      have hnodup := h.queued.nodup reader
      rw [hcond, List.nodup_cons] at hnodup
      have hself : (cond_signal s reader).phase t = s.phase t := by
        rw [hres, RwState.setPhase_of_ne _ _ hwt.symm]
        rfl
      -- the woken party still waits, and holds nothing, as before
      have hothers : ∀ p : Phase → Bool, p (.asleep reader) = p (.signalled reader) →
          (cond_signal s reader).others t p = s.others t p := by
        intro p hp
        rw [RwState.others, hself, hres, RwState.tally_setPhase, RwState.others,
          RwState.setLock_phase, hw, hp, RwState.others]
        omega
      have hlock : (cond_signal s reader).lock = s.lock.setCond reader ws := by
        rw [hres]
        rfl
      have hsig : Signals s (cond_signal s reader) t := by
        refine ⟨?_, ?_, ?_, ?_, hself, fun u r hu => ?_⟩
        · rw [hlock, RwLock.setCond_AR]
        · rw [hlock, RwLock.setCond_WR]
        · rw [hlock, RwLock.setCond_AW]
        · rw [hlock, RwLock.setCond_WW]
        · by_cases huw : u = w
          · subst huw
            rw [hres, RwState.setPhase_self] at hu
            cases hu
          · rwa [hres, RwState.setPhase_of_ne _ _ huw] at hu
      refine ⟨⟨?_, ?_, ?_, ?_, ?_⟩, hsig, ?_, ?_⟩
      · refine ⟨?_, ?_, ?_, ?_⟩
        · rw [hsig.AR, hothers _ rfl, h.tallied.AR]
        · rw [hsig.WR, hothers _ rfl, h.tallied.WR]
        · rw [hsig.AW, hothers _ rfl, h.tallied.AW]
        · rw [hsig.WW, hothers _ rfl, h.tallied.WW]
      · refine ⟨fun r u => ?_, fun r => ?_⟩
        · rw [hlock]
          by_cases hr : r = reader
          · subst hr
            rw [RwLock.cond_setCond_self]
            by_cases huw : u = w
            · subst huw
              rw [hres, RwState.setPhase_self]
              exact iff_of_false hnodup.1 (by simp)
            · rw [hres, RwState.setPhase_of_ne _ _ huw, RwState.setLock_phase,
                ← h.queued.mem_iff, hcond, List.mem_cons, or_iff_right huw]
          · rw [RwLock.cond_setCond_of_ne _ _ _ hr, h.queued.mem_iff]
            by_cases huw : u = w
            · subst huw
              rw [hres, RwState.setPhase_self, hw]
              refine iff_of_false (fun heq => hr ?_) (by simp)
              cases heq
              rfl
            · rw [hres, RwState.setPhase_of_ne _ _ huw]
              rfl
        · rw [hlock]
          by_cases hr : r = reader
          · subst hr
            rw [RwLock.cond_setCond_self]
            exact hnodup.2
          · rw [RwLock.cond_setCond_of_ne _ _ _ hr]
            exact h.queued.nodup r
      · intro r
        rw [hself]
        exact h.awake r
      · rw [hsig.AW]
        exact h.one_writer
      · rw [hsig.AW, hsig.AR]
        exact h.excl
      · rw [hlock, RwLock.cond_setCond_self, List.tail_cons]
      · intro _
        exact ⟨w, hwt, by rw [hres, RwState.setPhase_self]⟩

theorem broadcast_loop_spec (reader : Bool) (ts : List T) :
    ∀ s : RwState T, RwPre s t → s.lock.cond reader = ts →
      RwPre (broadcast_loop reader ts s) t ∧ Signals s (broadcast_loop reader ts s) t ∧
        (broadcast_loop reader ts s).lock.cond reader = [] := by
  induction ts with
  | nil =>
      intro s h hcond
      exact ⟨h, ⟨rfl, rfl, rfl, rfl, rfl, fun _ _ hu => hu⟩, hcond⟩
  | cons w ws ih =>
      intro s h hcond
      rcases cond_signal_spec h reader with ⟨hpre, hsig, htail, _⟩
      rw [hcond, List.tail_cons] at htail
      rcases ih (cond_signal s reader) hpre htail with ⟨hpre', hsig', hempty⟩
      exact ⟨hpre', hsig.trans hsig', hempty⟩

/-- `cond_broadcast` leaves nobody asleep on the condition. -/
theorem cond_broadcast_spec (h : RwPre s t) (reader : Bool) :
    RwPre (cond_broadcast s reader) t ∧ Signals s (cond_broadcast s reader) t ∧
      ∀ u, (cond_broadcast s reader).phase u ≠ .asleep reader := by
  rcases broadcast_loop_spec reader (s.lock.cond reader) s h rfl with ⟨hpre, hsig, hempty⟩
  refine ⟨hpre, hsig, fun u hu => ?_⟩
  have hmem : u ∈ (broadcast_loop reader (s.lock.cond reader) s).lock.cond reader :=
    (hpre.queued.mem_iff reader u).2 hu
  rw [hempty] at hmem
  cases hmem

/-! ## Steps -/

/-- A section ends with `t` out of the lock. -/
theorem RwPre.finish (h : RwPre s t) (hread : ∀ u, s.phase u = .asleep true →
      s.lock.AW + s.lock.WW > 0)
    (hwrite : ∀ u, s.phase u = .asleep false →
      s.lock.AR + s.lock.AW > 0 ∨ ∃ w, w ≠ t ∧ s.phase w = .signalled false) :
    RwInv (s.setPhase t .out) := by
  have hasleep : ∀ u r, (s.setPhase t .out).phase u = .asleep r → s.phase u = .asleep r := by
    intro u r hu
    by_cases hut : u = t
    · subst hut
      rw [RwState.setPhase_self] at hu
      cases hu
    · rwa [RwState.setPhase_of_ne _ _ hut] at hu
  refine ⟨?_, ?_, h.one_writer, h.excl, ?_, ?_⟩
  · refine Tallied.join ?_ ?_ ?_ ?_ <;>
      simp [h.tallied.AR, h.tallied.WR, h.tallied.AW, h.tallied.WW, Phase.holds, Phase.waits]
  · exact h.queued.setPhase h.awake (by decide) fun _ => rfl
  · exact fun u hu => hread u (hasleep u true hu)
  · intro u hu
    rcases hwrite u (hasleep u false hu) with hpos | ⟨w, hwt, hw⟩
    · exact Or.inl hpos
    · exact Or.inr ⟨w, by rw [RwState.setPhase_of_ne _ _ hwt, hw]⟩

theorem release_reader (h : RwInv s) (ht : s.phase t = .release true) :
    RwInv ((release_section s true).setPhase t .out) := by
  have hAR := h.tallied.AR
  have hothers : s.lock.AR - 1 = s.others t (Phase.holds true) := by
    rw [hAR, RwState.others, ht]
    rfl
  have hAR0 := s.others_nonneg t (Phase.holds true)
  have hone := h.one_writer
  have hexcl := h.excl
  set s₁ := s.setLock (s.lock.addAR (-1)) with hs₁
  have hpre : RwPre s₁ t := by
    refine ⟨⟨?_, ?_, ?_, ?_⟩, ⟨h.queued.mem_iff, h.queued.nodup⟩, ?_, hone, ?_⟩
    · exact hothers
    · show s.lock.WR = tally _ s.phase - vote ((s.phase t).waits true)
      rw [h.tallied.WR, ht]
      exact (sub_zero _).symm
    · show s.lock.AW = tally _ s.phase - vote ((s.phase t).holds false)
      rw [h.tallied.AW, ht]
      exact (sub_zero _).symm
    · show s.lock.WW = tally _ s.phase - vote ((s.phase t).waits false)
      rw [h.tallied.WW, ht]
      exact (sub_zero _).symm
    · intro r
      rw [hs₁, RwState.setLock_phase, ht]
      simp
    · refine Or.inl ?_
      show s.lock.AW = 0
      omega
  have hread : ∀ u, s.phase u = .asleep true → s.lock.AW + s.lock.WW > 0 := h.read_asleep
  by_cases hlast : s.lock.AR - 1 = 0 ∧ s.lock.WW > 0
  · have hres : release_section s true = cond_signal s₁ false := by
      simp only [release_section, if_true, ← hs₁]
      exact if_pos hlast
    rcases cond_signal_spec hpre false with ⟨hpre', hsig, _, hwake⟩
    rw [hres]
    refine hpre'.finish (fun u hu => ?_) fun u hu => ?_
    · rw [hsig.AW, hsig.WW]
      exact hread u (hsig.asleep u true hu)
    · exact Or.inr (hwake ⟨u, hsig.asleep u false hu⟩)
  · have hres : release_section s true = s₁ := by
      simp only [release_section, if_true, ← hs₁]
      exact if_neg hlast
    rw [hres]
    refine hpre.finish hread fun u hu => ?_
    -- a writer waits, so the branch not taken says that this was not the last reader
    have hut : u ≠ t := fun he => hpre.awake false (he ▸ hu)
    have hWW : 0 < s₁.others t (Phase.waits false) :=
      RwState.others_pos hut (by rw [hu]; rfl)
    have hWW' : s.lock.WW = s₁.others t (Phase.waits false) := hpre.tallied.WW
    refine Or.inl ?_
    show s.lock.AR - 1 + s.lock.AW > 0
    omega

theorem release_writer (h : RwInv s) (ht : s.phase t = .release false) :
    RwInv ((release_section s false).setPhase t .out) := by
  have hAW := h.tallied.AW
  have hothers : s.lock.AW - 1 = s.others t (Phase.holds false) := by
    rw [hAW, RwState.others, ht]
    rfl
  have hAW0 := s.others_nonneg t (Phase.holds false)
  have hone := h.one_writer
  have hexcl := h.excl
  set s₁ := s.setLock (s.lock.addAW (-1)) with hs₁
  have hAW₁ : s₁.lock.AW = 0 := by
    show s.lock.AW - 1 = 0
    omega
  have hpre : RwPre s₁ t := by
    refine ⟨⟨?_, ?_, ?_, ?_⟩, ⟨h.queued.mem_iff, h.queued.nodup⟩, ?_, by omega, Or.inl hAW₁⟩
    · show s.lock.AR = tally _ s.phase - vote ((s.phase t).holds true)
      rw [h.tallied.AR, ht]
      exact (sub_zero _).symm
    · show s.lock.WR = tally _ s.phase - vote ((s.phase t).waits true)
      rw [h.tallied.WR, ht]
      exact (sub_zero _).symm
    · exact hothers
    · show s.lock.WW = tally _ s.phase - vote ((s.phase t).waits false)
      rw [h.tallied.WW, ht]
      exact (sub_zero _).symm
    · intro r
      rw [hs₁, RwState.setLock_phase, ht]
      simp
  have hWW₁ : s₁.lock.WW = s.lock.WW := rfl
  have hWR₁ : s₁.lock.WR = s.lock.WR := rfl
  have hwaiting : ∀ u r, s₁.phase u = .asleep r → 0 < s₁.others t (Phase.waits r) := by
    intro u r hu
    have hut : u ≠ t := fun he => hpre.awake r (he ▸ hu)
    exact RwState.others_pos hut (by rw [hu]; simp [Phase.waits])
  by_cases hWW : s.lock.WW > 0
  · have hres : release_section s false = cond_signal s₁ false := by
      simp only [release_section, Bool.false_eq_true, if_false, ← hs₁]
      exact if_pos hWW
    rcases cond_signal_spec hpre false with ⟨hpre', hsig, _, hwake⟩
    rw [hres]
    refine hpre'.finish (fun u _ => ?_) fun u hu => ?_
    · rw [hsig.AW, hsig.WW]
      omega
    · exact Or.inr (hwake ⟨u, hsig.asleep u false hu⟩)
  · -- no writer waits, so nobody sleeps on `write`
    have hnone : ∀ u, s₁.phase u ≠ .asleep false := by
      intro u hu
      have hpos := hwaiting u false hu
      rw [← hpre.tallied.WW] at hpos
      omega
    by_cases hWR : s.lock.WR > 0
    · have hres : release_section s false = cond_broadcast s₁ true := by
        simp only [release_section, Bool.false_eq_true, if_false, ← hs₁]
        rw [if_neg (by rw [hWW₁]; exact hWW), if_pos (by rw [hWR₁]; exact hWR)]
      rcases cond_broadcast_spec hpre true with ⟨hpre', hsig, hawake⟩
      rw [hres]
      refine hpre'.finish (fun u hu => absurd hu (hawake u)) fun u hu => ?_
      exact absurd (hsig.asleep u false hu) (hnone u)
    · have hres : release_section s false = s₁ := by
        simp only [release_section, Bool.false_eq_true, if_false, ← hs₁]
        rw [if_neg (by rw [hWW₁]; exact hWW), if_neg (by rw [hWR₁]; exact hWR)]
      rw [hres]
      refine hpre.finish (fun u hu => ?_) fun u hu => absurd hu (hnone u)
      have hpos := hwaiting u true hu
      rw [← hpre.tallied.WR] at hpos
      omega

/-- A party enters a section of `rw_lock_acquire` for the first time, or after `cond_wait`: in both
cases the counters count everybody else once the waiting counter is back. -/
theorem acquire_section (h : RwInv s) {reader : Bool} (ht : s.phase t = .acquire reader) :
    RwInv (acquire_test s t reader) := by
  have hholds : ∀ r, (s.phase t).holds r = false := by
    intro r
    rw [ht]
    rfl
  have hwaits : ∀ r, (s.phase t).waits r = false := by
    intro r
    rw [ht]
    rfl
  have hpre : RwPre s t := by
    refine ⟨h.tallied.leave hholds hwaits, h.queued, fun r => ?_, h.one_writer, h.excl⟩
    rw [ht]
    simp
  cases reader with
  | false =>
      exact acquire_test_writer hpre
  | true =>
      refine acquire_test_reader hpre h.read_asleep fun u hu => ?_
      rcases h.write_asleep u hu with hpos | ⟨w, hw⟩
      · exact Or.inl hpos
      · refine Or.inr ⟨w, ?_, hw⟩
        rintro rfl
        rw [ht] at hw
        cases hw

theorem resume_section (h : RwInv s) {reader : Bool} (ht : s.phase t = .signalled reader) :
    RwInv (acquire_resume s t reader) := by
  have hawake : ∀ r, s.phase t ≠ .asleep r := by
    intro r
    rw [ht]
    simp
  have hAR : s.lock.AR = s.others t (Phase.holds true) := by
    rw [h.tallied.AR, RwState.others, ht]
    exact (sub_zero _).symm
  have hAW : s.lock.AW = s.others t (Phase.holds false) := by
    rw [h.tallied.AW, RwState.others, ht]
    exact (sub_zero _).symm
  cases reader with
  | true =>
      have hWR : s.lock.WR + -1 = s.others t (Phase.waits true) := by
        rw [h.tallied.WR, RwState.others, ht]
        rfl
      have hWW : s.lock.WW = s.others t (Phase.waits false) := by
        rw [h.tallied.WW, RwState.others, ht]
        exact (sub_zero _).symm
      have hpre : RwPre (s.setLock (s.lock.addWR (-1))) t :=
        ⟨⟨hAR, hWR, hAW, hWW⟩, ⟨h.queued.mem_iff, h.queued.nodup⟩, hawake, h.one_writer, h.excl⟩
      refine acquire_test_reader hpre h.read_asleep fun u hu => ?_
      rcases h.write_asleep u hu with hpos | ⟨w, hw⟩
      · exact Or.inl hpos
      · refine Or.inr ⟨w, ?_, hw⟩
        rintro rfl
        rw [ht] at hw
        cases hw
  | false =>
      have hWR : s.lock.WR = s.others t (Phase.waits true) := by
        rw [h.tallied.WR, RwState.others, ht]
        exact (sub_zero _).symm
      have hWW : s.lock.WW + -1 = s.others t (Phase.waits false) := by
        rw [h.tallied.WW, RwState.others, ht]
        rfl
      have hpre : RwPre (s.setLock (s.lock.addWW (-1))) t :=
        ⟨⟨hAR, hWR, hAW, hWW⟩, ⟨h.queued.mem_iff, h.queued.nodup⟩, hawake, h.one_writer, h.excl⟩
      exact acquire_test_writer hpre

/-- A party that is neither waiting nor done waiting moves on without touching the lock. -/
theorem call_step (h : RwInv s) {p : Phase} (ht : ∀ r, s.phase t ≠ .asleep r)
    (ht' : ∀ r, s.phase t ≠ .signalled r) (hp : ∀ r, p ≠ .asleep r)
    (hholds : ∀ r, p.holds r = (s.phase t).holds r)
    (hwaits : ∀ r, p.waits r = (s.phase t).waits r) : RwInv (s.setPhase t p) := by
  have hasleep : ∀ u r, (s.setPhase t p).phase u = .asleep r → s.phase u = .asleep r := by
    intro u r hu
    by_cases hut : u = t
    · subst hut
      rw [RwState.setPhase_self] at hu
      exact absurd hu (hp r)
    · rwa [RwState.setPhase_of_ne _ _ hut] at hu
  refine ⟨?_, ?_, h.one_writer, h.excl, ?_, ?_⟩
  · refine Tallied.join ?_ ?_ ?_ ?_
    · rw [RwState.setPhase_lock, h.tallied.AR, RwState.others, hholds]
      omega
    · rw [RwState.setPhase_lock, h.tallied.WR, RwState.others, hwaits]
      omega
    · rw [RwState.setPhase_lock, h.tallied.AW, RwState.others, hholds]
      omega
    · rw [RwState.setPhase_lock, h.tallied.WW, RwState.others, hwaits]
      omega
  · exact h.queued.setPhase ht hp fun _ => rfl
  · exact fun u hu => h.read_asleep u (hasleep u true hu)
  · intro u hu
    rcases h.write_asleep u (hasleep u false hu) with hpos | ⟨w, hw⟩
    · exact Or.inl hpos
    · have hwt : w ≠ t := fun he => ht' false (he ▸ hw)
      exact Or.inr ⟨w, by rw [RwState.setPhase_of_ne _ _ hwt, hw]⟩

theorem RwInv.step {s' : RwState T} {l : T × RwEvent} (h : RwInv s) (hstep : RwStep s l s') :
    RwInv s' := by
  cases hstep with
  | call_acquire ht =>
      refine call_step h ?_ ?_ ?_ ?_ ?_ <;> intro r
      · simp [ht]
      · simp [ht]
      · simp
      · simp [ht, Phase.holds]
      · simp [ht, Phase.waits]
  | acquire ht =>
      exact acquire_section h ht
  | resume ht =>
      exact resume_section h ht
  | call_release ht =>
      refine call_step h ?_ ?_ ?_ ?_ ?_ <;> intro r
      · simp [ht]
      · simp [ht]
      · simp
      · simp [ht, Phase.holds]
      · simp [ht, Phase.waits]
  | @release t reader ht =>
      cases reader with
      | true =>
          exact release_reader h ht
      | false =>
          exact release_writer h ht

theorem RwInv.init (h0 : (rwSystem T).init s) : RwInv s := by
  rcases s with ⟨lock, phase⟩
  rcases h0 with ⟨hlock, hout⟩
  simp only at hlock hout
  subst hlock
  have hzero : ∀ p : Phase → Bool, p .out = false → tally p phase = 0 := by
    intro p hp
    refine tally_eq_zero_iff.2 fun t => ?_
    rw [hout t, hp]
  refine ⟨⟨?_, ?_, ?_, ?_⟩, ⟨fun r t => ?_, fun r => ?_⟩, ?_, ?_, fun t ht => ?_, fun t ht => ?_⟩
  · exact (hzero _ rfl).symm
  · exact (hzero _ rfl).symm
  · exact (hzero _ rfl).symm
  · exact (hzero _ rfl).symm
  · simp only [hout t]
    cases r <;> simp [RwLock.cond, RwLock.init]
  · cases r <;> simp [RwLock.cond, RwLock.init]
  · simp [RwLock.init]
  · simp [RwLock.init]
  · simp [hout t] at ht
  · simp [hout t] at ht

theorem rw_reachable_inv (hs : (rwSystem T).Reachable s) : RwInv s :=
  System.Reachable.invariant (I := RwInv) (fun _ h0 => RwInv.init h0)
    (fun _ _ _ hi hst => RwInv.step hi hst) hs

/-! ## Exclusion -/

/-- The readers-writers lock as its users see it. -/
structure RwGood (s : RwState T) : Prop where
  one_writer : ∀ t u, (s.phase t).holds false = true → (s.phase u).holds false = true → t = u
  excl : ∀ t u, (s.phase t).holds false = true → (s.phase u).holds true = false
  AR : s.lock.AR = tally (Phase.holds true) s.phase
  AW : s.lock.AW = tally (Phase.holds false) s.phase
  WR : s.lock.WR = tally (Phase.waits true) s.phase
  WW : s.lock.WW = tally (Phase.waits false) s.phase

omit [DecidableEq T] in
theorem RwInv.good (h : RwInv s) : RwGood s where
  one_writer := fun t u ht hu => by
    have hle : tally (Phase.holds false) s.phase ≤ 1 := h.tallied.AW ▸ h.one_writer
    exact tally_le_one_iff.1 hle t u ht hu
  excl := fun t u ht => by
    have hpos : 0 < tally (Phase.holds false) s.phase := tally_pos_iff.2 ⟨t, ht⟩
    have hAW : s.lock.AW = tally (Phase.holds false) s.phase := h.tallied.AW
    have hAR : tally (Phase.holds true) s.phase = 0 := by
      rw [← h.tallied.AR]
      exact h.excl.resolve_left (by omega)
    exact tally_eq_zero_iff.1 hAR u
  AR := h.tallied.AR
  AW := h.tallied.AW
  WR := h.tallied.WR
  WW := h.tallied.WW

omit [Fintype T] in
theorem cond_signal_phase (s : RwState T) (reader : Bool) (u : T) :
    (cond_signal s reader).phase u = s.phase u ∨
      (cond_signal s reader).phase u = .signalled reader := by
  cases hcond : s.lock.cond reader with
  | nil =>
      exact Or.inl (by simp [cond_signal, hcond])
  | cons w ws =>
      by_cases huw : u = w
      · exact Or.inr (by simp [cond_signal, hcond, huw])
      · exact Or.inl (by simp [cond_signal, hcond, RwState.setPhase_of_ne _ _ huw])

omit [Fintype T] in
theorem broadcast_loop_phase (reader : Bool) (ts : List T) :
    ∀ (s : RwState T) (u : T), (broadcast_loop reader ts s).phase u = s.phase u ∨
      (broadcast_loop reader ts s).phase u = .signalled reader := by
  induction ts with
  | nil =>
      exact fun s u => Or.inl rfl
  | cons w ws ih =>
      intro s u
      rcases ih (cond_signal s reader) u with hsame | hsig
      · rcases cond_signal_phase s reader u with h | h
        · exact Or.inl (hsame.trans h)
        · exact Or.inr (hsame.trans h)
      · exact Or.inr hsig

omit [Fintype T] in
/-- Releasing the lock makes nobody active. -/
theorem release_section_phase (s : RwState T) (reader : Bool) (u : T) :
    (release_section s reader).phase u = s.phase u ∨
      ∃ r, (release_section s reader).phase u = .signalled r := by
  cases reader with
  | true =>
      simp only [release_section, if_true]
      split_ifs
      · exact (cond_signal_phase _ false u).imp_right fun h => ⟨false, h⟩
      · exact Or.inl rfl
  | false =>
      simp only [release_section, Bool.false_eq_true, if_false]
      split_ifs
      · exact (cond_signal_phase _ false u).imp_right fun h => ⟨false, h⟩
      · exact (broadcast_loop_phase true _ _ u).imp_right fun h => ⟨true, h⟩
      · exact Or.inl rfl

omit [Fintype T] in
/-- The loop test of `rw_lock_acquire` makes only a reader active that found no writer. -/
theorem acquire_test_active {u : T} {reader : Bool} (hu : s.phase u ≠ .active true)
    (hu' : (acquire_test s t reader).phase u = .active true) : s.lock.AW + s.lock.WW ≤ 0 := by
  by_cases hut : u = t
  · subst hut
    cases reader with
    | true =>
        by_contra hblock
        have hpos : s.lock.AW + s.lock.WW > 0 := not_le.1 hblock
        simp [acquire_test, hpos, cond_wait] at hu'
    | false =>
        by_cases hblock : s.lock.AR + s.lock.AW > 0 <;>
          simp [acquire_test, hblock, cond_wait] at hu'
  · refine absurd ?_ hu
    rw [← hu']
    unfold acquire_test cond_wait
    split_ifs <;> simp [RwState.setPhase_of_ne _ _ hut]

theorem reader_enters (h : RwInv s) {s' : RwState T} {l : T × RwEvent} (hstep : RwStep s l s')
    {u : T} (hu : s.phase u ≠ .active true) (hu' : s'.phase u = .active true) (w : T) :
    (s.phase w).holds false = false ∧ (s.phase w).waits false = false := by
  have hnone : s.lock.AW + s.lock.WW ≤ 0 → (s.phase w).holds false = false ∧
      (s.phase w).waits false = false := by
    intro hle
    rw [h.tallied.AW, h.tallied.WW] at hle
    have hAW0 := tally_nonneg (Phase.holds false) s.phase
    have hWW0 := tally_nonneg (Phase.waits false) s.phase
    exact ⟨tally_eq_zero_iff.1 (by omega) w, tally_eq_zero_iff.1 (by omega) w⟩
  have hset : ∀ {s₁ : RwState T} {t : T} {p : Phase}, p ≠ .active true →
      (s₁.phase u = s.phase u ∨ ∃ r, s₁.phase u = .signalled r) →
      (s₁.setPhase t p).phase u ≠ .active true := by
    intro s₁ t p hp hs₁ hact
    by_cases hut : u = t
    · subst hut
      rw [RwState.setPhase_self] at hact
      exact hp hact
    · rw [RwState.setPhase_of_ne _ _ hut] at hact
      rcases hs₁ with hsame | ⟨r, hsig⟩
      · exact hu (hsame ▸ hact)
      · rw [hsig] at hact
        cases hact
  cases hstep with
  | call_acquire _ =>
      exact absurd hu' (hset (by simp) (Or.inl rfl))
  | acquire _ =>
      exact hnone (acquire_test_active hu hu')
  | @resume t reader ht =>
      cases reader with
      | true =>
          have htest : (acquire_test (s.setLock (s.lock.addWR (-1))) t true).phase u =
              .active true := hu'
          exact hnone (acquire_test_active (s := s.setLock (s.lock.addWR (-1))) hu htest)
      | false =>
          -- a writer that resumes makes itself active at most
          have hphase : (acquire_resume s t false).phase u = s.phase u ∨
              (acquire_resume s t false).phase u ≠ .active true := by
            simp only [acquire_resume, acquire_test, Bool.false_eq_true, if_false, cond_wait]
            by_cases hut : u = t
            · subst hut
              exact Or.inr (by split_ifs <;> simp)
            · exact Or.inl (by split_ifs <;> simp [RwState.setPhase_of_ne _ _ hut])
          rcases hphase with hsame | hne
          · exact absurd (hsame ▸ hu') hu
          · exact absurd hu' hne
  | call_release _ =>
      exact absurd hu' (hset (by simp) (Or.inl rfl))
  | release _ =>
      exact absurd hu' (hset (by simp) (release_section_phase s _ u))

/-- In every state of every run there is at most one active writer, and no reader beside it; the
counters are right; and no step makes a reader active while a writer is active or waiting. -/
theorem rw_runs_good (hs : (rwSystem T).Reachable s) :
    RwGood s ∧ ∀ l s', (rwSystem T).step s l s' → ∀ u, s.phase u ≠ .active true →
      s'.phase u = .active true →
      ∀ w, (s.phase w).holds false = false ∧ (s.phase w).waits false = false := by
  have hinv := rw_reachable_inv hs
  exact ⟨hinv.good, fun _ _ hstep _ hu hu' w => reader_enters hinv hstep hu hu' w⟩

/-- A writer is active and a reader sleeps. -/
theorem rw_run_two : ∃ s : RwState (Fin 2), (rwSystem (Fin 2)).Reachable s ∧
    s.lock.AW = 1 ∧ s.lock.WR = 1 := by
  have h0 : (rwSystem (Fin 2)).Reachable ⟨RwLock.init, fun _ => .out⟩ :=
    System.Reachable.init ⟨rfl, fun _ => rfl⟩
  have h1 := h0.step (@RwStep.call_acquire (Fin 2) _ _ 0 false rfl)
  have h2 := h1.step (@RwStep.acquire (Fin 2) _ _ 0 false (by decide))
  have h3 := h2.step (@RwStep.call_acquire (Fin 2) _ _ 1 true (by decide))
  have h4 := h3.step (@RwStep.acquire (Fin 2) _ _ 1 true (by decide))
  exact ⟨_, h4, by decide, by decide⟩

theorem rw_runs_good_two : ∃ s : RwState (Fin 2), s.lock.AW = 1 ∧ s.lock.WR = 1 ∧ RwGood s := by
  rcases rw_run_two with ⟨s, hs, hAW, hWR⟩
  exact ⟨s, hAW, hWR, (rw_runs_good hs).1⟩

/-! ## Wake-ups -/

/-- In every state of every run: nobody sleeps while the lock is free and no signalled party is on
its way, and no reader sleeps while no writer is active or waiting.  Parties that queue on the guard
make no difference. -/
theorem rw_no_lost_wakeup (hs : (rwSystem T).Reachable s) :
    (s.lock.AR = 0 → s.lock.AW = 0 → (∀ t r, s.phase t ≠ .signalled r) →
      ∀ t r, s.phase t ≠ .asleep r) ∧
    (s.lock.WW = 0 → s.lock.AW = 0 → ∀ t, s.phase t ≠ .asleep true) := by
  have h := rw_reachable_inv hs
  have hwriter : s.lock.AR = 0 → s.lock.AW = 0 → (∀ t r, s.phase t ≠ .signalled r) →
      ∀ t, s.phase t ≠ .asleep false := by
    intro hAR hAW hsig t ht
    rcases h.write_asleep t ht with hpos | ⟨u, hu⟩
    · omega
    · exact hsig u false hu
  have hreader : s.lock.WW = 0 → s.lock.AW = 0 → ∀ t, s.phase t ≠ .asleep true := by
    intro hWW hAW t ht
    have hpos := h.read_asleep t ht
    omega
  refine ⟨fun hAR hAW hsig t r ht => ?_, hreader⟩
  cases r with
  | false =>
      exact hwriter hAR hAW hsig t ht
  | true =>
      -- a reader sleeps for a writer that waits, and that writer would be asleep itself
      have hpos := h.read_asleep t ht
      have hWW : 0 < tally (Phase.waits false) s.phase := by
        rw [← h.tallied.WW]
        omega
      rcases tally_pos_iff.1 hWW with ⟨w, hw⟩
      cases hphase : s.phase w with
      | asleep q =>
          have hq : q = false := by simpa [hphase, Phase.waits] using hw
          subst hq
          exact hwriter hAR hAW hsig w hphase
      | signalled q =>
          exact hsig w q hphase
      | _ =>
          rw [hphase] at hw
          cases hw

theorem rw_no_lost_wakeup_two : ∃ s : RwState (Fin 2), s.lock.AW = 1 ∧ s.lock.WR = 1 ∧
    (s.lock.WW = 0 → s.lock.AW = 0 → ∀ t, s.phase t ≠ .asleep true) := by
  rcases rw_run_two with ⟨s, hs, hAW, hWR⟩
  exact ⟨s, hAW, hWR, (rw_no_lost_wakeup hs).2⟩

end Berk162
