import Berk162.Userprog.ProcessLife

/-!
# ProcessLifeRuns — the active page directory over whole runs

`ProcessesInv` says who owns which block and which page directory, and what is in `%cr3` for each
place where the thread that runs may be.  A statement changes only what its own thread owns
(`ProcessesInv.own`), so each one is checked for that thread alone.
-/

namespace Berk162

variable {T B D : Type}

/-! ## Owners -/

/-- A block that is in a local variable only. -/
def ProcessPc.block : ProcessPc B D → Option B
  | .set_pagedir b | .set_pcb b | .free_pcb b => some b
  | _ => none

/-- A page directory that is in a local variable only. -/
def ProcessPc.dir : ProcessPc B D → Option D
  | .deactivate d | .pagedir_destroy d => some d
  | _ => none

namespace Processes

variable (s : Processes T B D)

/-- The process control block of thread `t`, published or not. -/
def block (t : T) : Option B :=
  match s.pcb t with
  | some b => some b
  | none => (s.pc t).bind ProcessPc.block

/-- The page directory of thread `t`, published or not. -/
def dir (t : T) : Option D :=
  match s.pcb t with
  | some b =>
      match s.pagedir b with
      | some (some d) => some d
      | _ => (s.pc t).bind ProcessPc.dir
  | none => (s.pc t).bind ProcessPc.dir

/-- The published page directory of thread `t` is `pd`. -/
def Published (t : T) (pd : Option D) : Prop := ∃ b, s.pcb t = some b ∧ s.pagedir b = some pd

/-- What has been set up for thread `t` when it comes to `pc`. -/
def At (t : T) : ProcessPc B D → Prop
  | .userprog_init | .start_process | .set_pagedir _ | .free_pcb _ | .thread_exit | .dying =>
      s.pcb t = none
  | .kernel => s.pcb t = none ∨ s.Published t none
  | .set_pcb b => s.pcb t = none ∧ s.pagedir b = some none
  | .pagedir_create | .deactivate _ | .pagedir_destroy _ => s.Published t none
  | .process_activate | .tss_update | .load | .user | .process_exit => ∃ d, s.Published t (some d)
  | .pagedir_activate pd => ∃ d, pd = some d ∧ s.Published t (some d)
  | .clear_pagedir d => s.Published t (some d)
  | .clear_pcb => ∃ pd, s.Published t pd

/-- What is in `%cr3` when the thread that runs comes to `pc`: its own page directory, apart from the
statements that change the one or the other.  A page directory that a failed `load` left active
is not any thread's. -/
def Active : ProcessPc B D → Prop
  | .process_activate | .pagedir_activate _ =>
      s.cr3 = none ∨ s.active_pagedir s.current = some s.cr3
  | .deactivate d => s.cr3 = none ∨ s.cr3 = some d
  | .free_pcb _ | .thread_exit | .dying =>
      ∀ d, s.cr3 = some d → s.live d = true ∧ ∀ t, s.dir t ≠ some d
  | _ => s.active_pagedir s.current = some s.cr3

end Processes

structure ProcessesInv (s : Processes T B D) : Prop where
  at_pc : ∀ t pc, s.pc t = some pc → s.At t pc
  absent : ∀ t, s.pc t = none → s.pcb t = none
  block_live : ∀ t b, s.block t = some b → s.pagedir b ≠ none
  block_one : ∀ t u b, s.block t = some b → s.block u = some b → t = u
  dir_live : ∀ t d, s.dir t = some d → s.live d = true
  dir_one : ∀ t u d, s.dir t = some d → s.dir u = some d → t = u
  active : ∃ pc, s.pc s.current = some pc ∧ s.Active pc
  stack : s.esp0 = s.current

variable {s s' : Processes T B D} {t u : T} {b : B} {d : D} {pd : Option D} {pc : ProcessPc B D}

namespace Processes

theorem block_of_pcb (h : s.pcb t = some b) : s.block t = some b := by
  simp [block, h]

theorem block_of_none (h : s.pcb t = none) : s.block t = (s.pc t).bind ProcessPc.block := by
  simp [block, h]

theorem Published.dir_some (h : s.Published t (some d)) : s.dir t = some d := by
  rcases h with ⟨b, hpcb, hpd⟩
  simp [Processes.dir, hpcb, hpd]

theorem Published.dir_none (h : s.Published t none) : s.dir t = (s.pc t).bind ProcessPc.dir := by
  rcases h with ⟨b, hpcb, hpd⟩
  simp [Processes.dir, hpcb, hpd]

theorem dir_of_none (h : s.pcb t = none) : s.dir t = (s.pc t).bind ProcessPc.dir := by
  simp [dir, h]

theorem Published.active (h : s.Published t pd) : s.active_pagedir t = some pd := by
  rcases h with ⟨b, hpcb, hpd⟩
  simp [active_pagedir, hpcb, hpd]

theorem active_of_none (h : s.pcb t = none) : s.active_pagedir t = some none := by
  simp [active_pagedir, h]

/-- A thread's place, its published block and what is in its block are as before. -/
structure Same (s s' : Processes T B D) (t : T) : Prop where
  pc : s'.pc t = s.pc t
  pcb : s'.pcb t = s.pcb t
  pagedir : ∀ b, s.block t = some b → s'.pagedir b = s.pagedir b

theorem Same.block (h : Same s s' t) : s'.block t = s.block t := by
  simp only [Processes.block, h.pc, h.pcb]

theorem Same.dir (h : Same s s' t) : s'.dir t = s.dir t := by
  cases hpcb : s.pcb t with
  | none =>
      rw [dir_of_none hpcb, dir_of_none (h.pcb.trans hpcb), h.pc]
  | some b =>
      have hfield := h.pagedir b (block_of_pcb hpcb)
      simp only [Processes.dir, h.pcb, hpcb, hfield, h.pc]

theorem Same.published (h : Same s s' t) (hp : s.Published t pd) : s'.Published t pd := by
  rcases hp with ⟨b, hpcb, hpd⟩
  exact ⟨b, h.pcb.trans hpcb, (h.pagedir b (block_of_pcb hpcb)).trans hpd⟩

theorem Same.at_pc (h : Same s s' t) (hpc : s.pc t = some pc) (hat : s.At t pc) : s'.At t pc := by
  cases pc with
  | userprog_init | start_process | set_pagedir | free_pcb | thread_exit | dying =>
      exact h.pcb.trans hat
  | kernel =>
      exact hat.imp h.pcb.trans h.published
  | set_pcb b =>
      refine ⟨h.pcb.trans hat.1, (h.pagedir b ?_).trans hat.2⟩
      rw [block_of_none hat.1, hpc]
      rfl
  | pagedir_create | deactivate | pagedir_destroy | clear_pagedir =>
      exact h.published hat
  | process_activate | tss_update | load | user | process_exit =>
      rcases hat with ⟨d, hp⟩
      exact ⟨d, h.published hp⟩
  | pagedir_activate pd =>
      rcases hat with ⟨d, hpd, hp⟩
      exact ⟨d, hpd, h.published hp⟩
  | clear_pcb =>
      rcases hat with ⟨pd, hp⟩
      exact ⟨pd, h.published hp⟩

end Processes

namespace ProcessesInv

/-- A statement of the thread that runs: it keeps what other threads own, and what it owns afterwards
it owned before, or it was not in use. -/
theorem own (h : ProcessesInv s) (hcur : s'.current = s.current) (hesp : s'.esp0 = s'.current)
    (hother : ∀ t, t ≠ s.current → Processes.Same s s' t)
    (hlive : ∀ t d, t ≠ s.current → s.dir t = some d → s'.live d = true)
    (hblock : ∀ b, s'.block s.current = some b →
      s'.pagedir b ≠ none ∧ (s.block s.current = some b ∨ s.pagedir b = none))
    (hdir : ∀ d, s'.dir s.current = some d →
      s'.live d = true ∧ (s.dir s.current = some d ∨ s.live d = false))
    (hpc : ∃ pc, s'.pc s.current = some pc ∧ s'.At s.current pc ∧ s'.Active pc) :
    ProcessesInv s' := by
  have hblock_one : ∀ u b, u ≠ s.current → s'.block s.current = some b → s'.block u ≠ some b := by
    intro u b hu hb hub
    rw [(hother u hu).block] at hub
    rcases (hblock b hb).2 with hold | hnew
    · exact hu (h.block_one u _ b hub hold)
    · exact h.block_live u b hub hnew
  have hdir_one : ∀ u d, u ≠ s.current → s'.dir s.current = some d → s'.dir u ≠ some d := by
    intro u d hu hd hud
    rw [(hother u hu).dir] at hud
    rcases (hdir d hd).2 with hold | hnew
    · exact hu (h.dir_one u _ d hud hold)
    · rw [h.dir_live u d hud] at hnew
      cases hnew
  rcases hpc with ⟨pc₀, hpc₀, hat₀, hactive₀⟩
  constructor
  · intro t pc hpc
    by_cases ht : t = s.current
    · subst ht
      rw [hpc₀, Option.some.injEq] at hpc
      exact hpc ▸ hat₀
    · have hpc' := ((hother t ht).pc).symm.trans hpc
      exact (hother t ht).at_pc hpc' (h.at_pc t pc hpc')
  · intro t hpc
    by_cases ht : t = s.current
    · subst ht
      rw [hpc₀] at hpc
      cases hpc
    · exact (hother t ht).pcb.trans (h.absent t ((hother t ht).pc.symm.trans hpc))
  · intro t b hb
    by_cases ht : t = s.current
    · subst ht
      exact (hblock b hb).1
    · rw [(hother t ht).block] at hb
      rw [(hother t ht).pagedir b hb]
      exact h.block_live t b hb
  · intro t u b ht hu
    by_cases htc : t = s.current
    · subst htc
      by_contra hne
      exact hblock_one u b (Ne.symm hne) ht hu
    · by_cases huc : u = s.current
      · subst huc
        exact absurd ht (hblock_one t b htc hu)
      · rw [(hother t htc).block] at ht
        rw [(hother u huc).block] at hu
        exact h.block_one t u b ht hu
  · intro t d hd
    by_cases ht : t = s.current
    · subst ht
      exact (hdir d hd).1
    · rw [(hother t ht).dir] at hd
      exact hlive t d ht hd
  · intro t u d ht hu
    by_cases htc : t = s.current
    · subst htc
      by_contra hne
      exact hdir_one u d (Ne.symm hne) ht hu
    · by_cases huc : u = s.current
      · subst huc
        exact absurd ht (hdir_one t d htc hu)
      · rw [(hother t htc).dir] at ht
        rw [(hother u huc).dir] at hu
        exact h.dir_one t u d ht hu
  · rw [hcur]
    exact ⟨pc₀, hpc₀, hactive₀⟩
  · exact hesp

/-- A thread's own block, and one that is not in use, are not another thread's. -/
theorem block_ne (h : ProcessesInv s) {b₀ : B} (ht : t ≠ s.current) (hb : s.block t = some b)
    (hb₀ : s.block s.current = some b₀ ∨ s.pagedir b₀ = none) : b ≠ b₀ := by
  rintro rfl
  rcases hb₀ with hown | hfree
  · exact ht (h.block_one t _ b hb hown)
  · exact h.block_live t b hb hfree

end ProcessesInv

/-! ## Statements -/

variable [DecidableEq T]

namespace Processes

theorem goto_pc_self : (s.goto pc).pc s.current = some pc := by
  simp [goto]

theorem goto_pc_ne (ht : t ≠ s.current) : (s.goto pc).pc t = s.pc t := by
  simp [goto, ht]

/-- A place without a page directory of its own leaves a thread without a published block none. -/
theorem dir_of_goto (hnone : s.pcb s.current = none) (hdir : pc.dir = none)
    (hd : (s.goto pc).dir t = some d) : s.dir t = some d := by
  by_cases ht : t = s.current
  · have hself : (s.goto pc).dir s.current = none := by
      rw [dir_of_none (s := s.goto pc) hnone, goto_pc_self]
      exact hdir
    rw [ht, hself] at hd
    cases hd
  · have hsame : Same s (s.goto pc) t := ⟨goto_pc_ne ht, rfl, fun _ _ => rfl⟩
    rwa [hsame.dir] at hd

omit [DecidableEq T] in
theorem set_pagedir_eq [DecidableEq B] (hb : s.pcb s.current = some b) (hlive : s.pagedir b ≠ none) :
    s.set_pagedir pd = some { s with pagedir := Function.update s.pagedir b (some pd) } := by
  rw [set_pagedir, hb, Option.bind_some, if_neg hlive]

end Processes

namespace ProcessesInv

/-- A statement that writes to no block and publishes nothing. -/
theorem own_goto (h : ProcessesInv s) (hpcb : s'.pcb = s.pcb) (hfield : s'.pagedir = s.pagedir)
    (hlive : s'.live = s.live) (hcur : s'.current = s.current) (hesp : s'.esp0 = s.current)
    (hgoto : s'.pc = Function.update s.pc s.current (some pc))
    (hblock : s.pcb s.current = none → pc.block = none)
    (hdir : ∀ d, pc.dir = some d → s.dir s.current = some d)
    (hat : s.At s.current pc) (hactive : s'.Active pc) : ProcessesInv s' := by
  have hself : s'.pc s.current = some pc := by rw [hgoto, Function.update_self]
  have hpublished : ∀ pd, s.Published s.current pd → s'.Published s.current pd := by
    rintro pd ⟨b, hb, hpd⟩
    exact ⟨b, (congrFun hpcb _).trans hb, (congrFun hfield b).trans hpd⟩
  refine h.own hcur (hesp.trans hcur.symm)
    (fun t ht => ⟨by rw [hgoto, Function.update_of_ne ht], congrFun hpcb t, fun b _ => congrFun hfield b⟩)
    (fun t d _ hd => by rw [hlive]; exact h.dir_live t d hd) (fun b hb => ?_) (fun d hd => ?_)
    ⟨pc, hself, ?_, hactive⟩
  · have hold : s.block s.current = some b := by
      cases hb₀ : s.pcb s.current with
      | none =>
          rw [Processes.block_of_none ((congrFun hpcb _).trans hb₀), hself, Option.bind_some,
            hblock hb₀] at hb
          cases hb
      | some b₀ =>
          rw [Processes.block_of_pcb ((congrFun hpcb _).trans hb₀)] at hb
          rw [Processes.block_of_pcb hb₀, hb]
    exact ⟨hfield ▸ h.block_live _ b hold, Or.inl hold⟩
  · have hold : s.dir s.current = some d := by
      cases hb₀ : s.pcb s.current with
      | none =>
          rw [Processes.dir_of_none ((congrFun hpcb _).trans hb₀), hself] at hd
          exact hdir d hd
      | some b₀ =>
          rcases hpd : s.pagedir b₀ with _ | _ | d₀
          · exact absurd hpd (h.block_live _ b₀ (Processes.block_of_pcb hb₀))
          · rw [(hpublished none ⟨b₀, hb₀, hpd⟩).dir_none, hself] at hd
            exact hdir d hd
          · rw [(hpublished (some d₀) ⟨b₀, hb₀, hpd⟩).dir_some] at hd
            rw [Processes.Published.dir_some ⟨b₀, hb₀, hpd⟩, hd]
    exact ⟨hlive ▸ h.dir_live _ d hold, Or.inl hold⟩
  · have hnone : s.pcb s.current = none → s'.pcb s.current = none := (congrFun hpcb _).trans
    cases pc with
    | userprog_init | start_process | set_pagedir | free_pcb | thread_exit | dying =>
        exact hnone hat
    | kernel =>
        exact hat.imp hnone (hpublished none)
    | set_pcb b =>
        exact ⟨hnone hat.1, (congrFun hfield b).trans hat.2⟩
    | pagedir_create | deactivate | pagedir_destroy | clear_pagedir =>
        exact hpublished _ hat
    | process_activate | tss_update | load | user | process_exit =>
        exact hat.imp fun d => hpublished (some d)
    | clear_pcb =>
        exact hat.imp hpublished
    | pagedir_activate pd =>
        exact hat.imp fun d hd => ⟨hd.1, hpublished _ hd.2⟩

variable [DecidableEq B]

/-- A statement of a thread without a published block that writes to a block `b₀`, which it owns or
which is not in use, and then may own. -/
theorem own_block (h : ProcessesInv s) {b₀ : B} {field : Option (Option D)}
    (hown : s.block s.current = some b₀ ∨ s.pagedir b₀ = none)
    (hnone : s.pcb s.current = none) (hpcb : s'.pcb = s.pcb)
    (hfield : s'.pagedir = Function.update s.pagedir b₀ field) (hlive : s'.live = s.live)
    (hcur : s'.current = s.current) (hesp : s'.esp0 = s.current)
    (hgoto : s'.pc = Function.update s.pc s.current (some pc)) (hnodir : pc.dir = none)
    (hblock : ∀ b, pc.block = some b → b = b₀ ∧ field ≠ none)
    (hat : s'.At s.current pc)
    (hactive : (∀ t d, s'.dir t = some d → s.dir t = some d) → s'.Active pc) :
    ProcessesInv s' := by
  have hself : s'.pc s.current = some pc := by rw [hgoto, Function.update_self]
  have hnone' : s'.pcb s.current = none := (congrFun hpcb _).trans hnone
  have hsame : ∀ t, t ≠ s.current → Processes.Same s s' t := by
    refine fun t ht => ⟨by rw [hgoto, Function.update_of_ne ht], congrFun hpcb t, fun b hb => ?_⟩
    rw [hfield, Function.update_of_ne (h.block_ne ht hb hown)]
  have hdir : s'.dir s.current = none := by
    rw [Processes.dir_of_none hnone', hself, Option.bind_some, hnodir]
  refine h.own hcur (hesp.trans hcur.symm) hsame
    (fun t d _ hd => by rw [hlive]; exact h.dir_live t d hd) (fun b hb => ?_) (fun d hd => ?_)
    ⟨pc, hself, hat, hactive fun t d hd => ?_⟩
  · rw [Processes.block_of_none hnone', hself] at hb
    rcases hblock b hb with ⟨rfl, hne⟩
    rw [hfield, Function.update_self]
    exact ⟨hne, hown⟩
  · rw [hdir] at hd
    cases hd
  · by_cases ht : t = s.current
    · rw [ht, hdir] at hd
      cases hd
    · rwa [(hsame t ht).dir] at hd

/-- A statement after which the thread `t` that runs has published a block `b₀` with the page directory
`pd`.  It owned the block before, or the block was not in use. -/
theorem own_published (h : ProcessesInv s) (pd : Option D) {b₀ : B}
    (hown : s.block s.current = some b₀ ∨ s.pagedir b₀ = none)
    (hb₀ : s'.pcb s.current = some b₀) (hpcb : ∀ t, t ≠ s.current → s'.pcb t = s.pcb t)
    (hfield : s'.pagedir = Function.update s.pagedir b₀ (some pd))
    (hlive : ∀ t d, t ≠ s.current → s.dir t = some d → s'.live d = true)
    (hcur : s'.current = s.current) (hesp : s'.esp0 = s.current)
    (hgoto : s'.pc = Function.update s.pc s.current (some pc))
    (hdir : ∀ d, pd = some d ∨ (pd = none ∧ pc.dir = some d) →
      s'.live d = true ∧ (s.dir s.current = some d ∨ s.live d = false))
    (hat : s'.Published s.current pd → s'.At s.current pc)
    (hactive : s'.active_pagedir s'.current = some pd → s'.Active pc) : ProcessesInv s' := by
  have hself : s'.pc s.current = some pc := by rw [hgoto, Function.update_self]
  have hpub : s'.Published s.current pd := ⟨b₀, hb₀, by rw [hfield, Function.update_self]⟩
  refine h.own hcur (hesp.trans hcur.symm) (fun t ht => ⟨?_, hpcb t ht, fun b hb => ?_⟩)
    hlive (fun b hb => ?_) (fun d hd => hdir d ?_)
    ⟨pc, hself, hat hpub, hactive (by rw [hcur]; exact hpub.active)⟩
  · rw [hgoto, Function.update_of_ne ht]
  · rw [hfield, Function.update_of_ne (h.block_ne ht hb hown)]
  · rw [Processes.block_of_pcb hb₀, Option.some.injEq] at hb
    subst hb
    rw [hfield, Function.update_self]
    exact ⟨by simp, hown⟩
  · cases pd with
    | none =>
        rw [hpub.dir_none, hself] at hd
        exact Or.inr ⟨rfl, hd⟩
    | some d' =>
        rw [hpub.dir_some] at hd
        exact Or.inl hd

omit [DecidableEq B] in
/-- `cur->pcb = NULL`: a page directory that was still in the block is nobody's any more. -/
theorem own_clear (h : ProcessesInv s) {b₀ : B} (hb₀ : s.pcb s.current = some b₀)
    (hpcb : s'.pcb = Function.update s.pcb s.current none) (hfield : s'.pagedir = s.pagedir)
    (hlive : s'.live = s.live) (hcr3 : s'.cr3 = s.cr3) (hcur : s'.current = s.current)
    (hesp : s'.esp0 = s.current)
    (hgoto : s'.pc = Function.update s.pc s.current (some (.free_pcb b₀)))
    (hactive : s.active_pagedir s.current = some s.cr3) : ProcessesInv s' := by
  have hself : s'.pc s.current = some (.free_pcb b₀) := by rw [hgoto, Function.update_self]
  have hnone : s'.pcb s.current = none := by rw [hpcb, Function.update_self]
  have hsame : ∀ t, t ≠ s.current → Processes.Same s s' t := fun t ht =>
    ⟨by rw [hgoto, Function.update_of_ne ht], by rw [hpcb, Function.update_of_ne ht],
      fun b _ => congrFun hfield b⟩
  have hdir : s'.dir s.current = none := by
    rw [Processes.dir_of_none hnone, hself]
    rfl
  refine h.own hcur (hesp.trans hcur.symm) hsame
    (fun t d _ hd => by rw [hlive]; exact h.dir_live t d hd) (fun b hb => ?_) (fun d hd => ?_)
    ⟨_, hself, hnone, fun d hd => ?_⟩
  · rw [Processes.block_of_none hnone, hself] at hb
    obtain rfl := Option.some.inj hb
    exact ⟨hfield ▸ h.block_live _ b₀ (Processes.block_of_pcb hb₀), Or.inl (Processes.block_of_pcb hb₀)⟩
  · rw [hdir] at hd
    cases hd
  · -- the page directory is the one in the block
    have hpub : s.Published s.current (some d) := by
      refine ⟨b₀, hb₀, ?_⟩
      rw [Processes.active_pagedir, hb₀] at hactive
      exact hactive.trans (congrArg some (hcr3.symm.trans hd))
    refine ⟨hlive ▸ h.dir_live _ d hpub.dir_some, fun t ht => ?_⟩
    by_cases htc : t = s.current
    · rw [htc, hdir] at ht
      cases ht
    · rw [(hsame t htc).dir] at ht
      exact htc (h.dir_one t _ d ht hpub.dir_some)

variable [DecidableEq D] {c : ProcessChoice B D}

/-- No statement fails, and each keeps the invariant. -/
theorem statement_ok (h : ProcessesInv s) (hc : process_enabled s (.statement c))
    (hpc : s.pc s.current = some pc) : ∃ s', s.statement c pc = some s' ∧ ProcessesInv s' := by
  have hat := h.at_pc _ _ hpc
  have hactive : s.Active pc := by
    rcases h.active with ⟨pc', hpc', hactive⟩
    rw [hpc, Option.some.injEq] at hpc'
    exact hpc' ▸ hactive
  have hnone : s.pcb s.current = none → s.active_pagedir s.current = some s.cr3 → s.cr3 = none := by
    intro hpcb hcr3
    rw [Processes.active_of_none hpcb, Option.some.injEq] at hcr3
    exact hcr3.symm
  rcases hc with ⟨hblock, hdir, hinit⟩
  cases pc with
  | userprog_init =>
      rcases hb : c.block with _ | b
      · exact absurd hb (hinit hpc)
      refine ⟨_, by rw [Processes.statement, hb], ?_⟩
      refine h.own_published none (Or.inr (hblock b hb)) (Function.update_self _ _ _)
        (fun t ht => Function.update_of_ne ht _ _) rfl (fun t d _ hd => h.dir_live t d hd) rfl h.stack
        rfl (fun d hd => ?_) Or.inr fun hpub => ?_
      · rcases hd with hd | ⟨_, hd⟩ <;> cases hd
      · exact hpub.trans (congrArg some (hnone hat hactive).symm)
  | kernel =>
      exact ⟨s, rfl, h⟩
  | start_process =>
      rcases hb : c.block with _ | b
      · refine ⟨_, by rw [Processes.statement, hb], ?_⟩
        refine h.own_goto rfl rfl rfl rfl h.stack rfl (fun _ => rfl) (fun d hd => ?_) hat fun d hd => ?_
        · cases hd
        · have hcr3 : s.cr3 = some d := hd
          rw [hnone hat hactive] at hcr3
          cases hcr3
      · refine ⟨_, by rw [Processes.statement, hb], ?_⟩
        refine h.own_block (Or.inr (hblock b hb)) hat rfl rfl rfl rfl h.stack rfl rfl
          (fun b' hb' => ⟨(Option.some.inj hb').symm, Option.some_ne_none _⟩) hat fun _ => ?_
        exact (Processes.active_of_none (by exact hat)).trans (hnone hat hactive ▸ rfl)
  | set_pagedir b =>
      have hown : s.block s.current = some b := by
        rw [Processes.block_of_none hat, hpc]
        rfl
      refine ⟨_, by rw [Processes.statement, if_neg (h.block_live _ b hown)], ?_⟩
      refine h.own_block (Or.inl hown) hat rfl rfl rfl rfl h.stack rfl rfl
        (fun b' hb' => ⟨(Option.some.inj hb').symm, Option.some_ne_none _⟩) ⟨hat, ?_⟩ fun _ => ?_
      · exact Function.update_self _ _ _
      · exact (Processes.active_of_none (by exact hat)).trans (hnone hat hactive ▸ rfl)
  | set_pcb b =>
      have hown : s.block s.current = some b := by
        rw [Processes.block_of_none hat.1, hpc]
        rfl
      refine ⟨_, rfl, ?_⟩
      refine h.own_published none (Or.inl hown) (Function.update_self _ _ _)
        (fun t ht => Function.update_of_ne ht _ _) (by rw [← hat.2, Function.update_eq_self]; rfl)
        (fun t d _ hd => h.dir_live t d hd) rfl h.stack rfl (fun d hd => ?_) id fun hpub => ?_
      · rcases hd with hd | ⟨_, hd⟩ <;> cases hd
      · exact hpub.trans (congrArg some (hnone hat.1 hactive).symm)
  | pagedir_create =>
      rcases hat with ⟨b, hb, hpd⟩
      have hpub : s.Published s.current none := ⟨b, hb, hpd⟩
      have hcr3 : s.cr3 = none := (Option.some.inj (hpub.active.symm.trans hactive)).symm
      have hown := Or.inl (b := s.pagedir b = none) (Processes.block_of_pcb hb)
      rcases hd : c.dir with _ | d
      · have hs : s.statement c .pagedir_create = some
            ({ s with pagedir := Function.update s.pagedir b (some none) }.goto .clear_pcb) := by
          rw [Processes.statement, hd, Processes.pagedir_create, Processes.set_pagedir_eq hb (by simp [hpd])]
          rfl
        refine ⟨_, hs, ?_⟩
        refine h.own_published none hown hb (fun t _ => rfl) rfl
          (fun t d _ hd => h.dir_live t d hd) rfl h.stack rfl (fun d hd => ?_) (fun hp => ⟨_, hp⟩)
          fun hpub => hpub.trans (congrArg some hcr3.symm)
        rcases hd with hd | ⟨_, hd⟩ <;> cases hd
      · have hs : s.statement c .pagedir_create = some
            ({ s with
              live := Function.update s.live d true
              pagedir := Function.update s.pagedir b (some (some d)) }.goto .process_activate) := by
          rw [Processes.statement, hd, Processes.pagedir_create,
            Processes.set_pagedir_eq (by exact hb) (by simp [hpd])]
          rfl
        refine ⟨_, hs, ?_⟩
        refine h.own_published (some d) hown hb (fun t _ => rfl) rfl (fun t d' _ hd' => ?_) rfl
          h.stack rfl (fun d' hd' => ?_) (fun hp => ⟨_, hp⟩) fun _ => Or.inl hcr3
        · by_cases heq : d' = d
          · rw [heq]
            exact Function.update_self _ _ _
          · exact (Function.update_of_ne heq _ _).trans (h.dir_live t d' hd')
        · rcases hd' with hd' | ⟨hd', _⟩
          · obtain rfl := Option.some.inj hd'
            exact ⟨Function.update_self _ _ _, Or.inr (hdir d hd)⟩
          · cases hd'
  | process_activate =>
      rcases hat with ⟨d, hpub⟩
      refine ⟨_, by rw [Processes.statement, hpub.active]; rfl, ?_⟩
      exact h.own_goto rfl rfl rfl rfl h.stack rfl (fun _ => rfl) (fun d hd => by cases hd)
        ⟨d, rfl, hpub⟩ hactive
  | pagedir_activate pd =>
      rcases hat with ⟨d, rfl, hpub⟩
      refine ⟨_, rfl, ?_⟩
      exact h.own_goto rfl rfl rfl rfl h.stack rfl (fun _ => rfl) (fun d hd => by cases hd)
        ⟨d, hpub⟩ hpub.active
  | tss_update =>
      exact ⟨_, rfl, h.own_goto rfl rfl rfl rfl rfl rfl (fun _ => rfl) (fun d hd => by cases hd) hat
        hactive⟩
  | load =>
      refine ⟨_, rfl, ?_⟩
      cases c.ok with
      | true =>
          exact h.own_goto rfl rfl rfl rfl h.stack rfl (fun _ => rfl) (fun d hd => by cases hd) hat
            hactive
      | false =>
          exact h.own_goto rfl rfl rfl rfl h.stack rfl (fun _ => rfl) (fun d hd => by cases hd)
            (hat.imp' some fun _ => id) hactive
  | user =>
      refine ⟨_, rfl, ?_⟩
      cases c.ok <;>
        exact h.own_goto rfl rfl rfl rfl h.stack rfl (fun _ => rfl) (fun d hd => by cases hd) hat hactive
  | process_exit =>
      rcases hat with ⟨d, b, hb, hpd⟩
      refine ⟨_, by simp only [Processes.statement, hb, hpd, Option.map_some]; rfl, ?_⟩
      exact h.own_goto rfl rfl rfl rfl h.stack rfl (fun _ => rfl) (fun d hd => by cases hd)
        ⟨b, hb, hpd⟩ hactive
  | clear_pagedir d =>
      rcases hat with ⟨b, hb, hpd⟩
      have hpub : s.Published s.current (some d) := ⟨b, hb, hpd⟩
      have hcr3 : s.cr3 = some d := (Option.some.inj (hpub.active.symm.trans hactive)).symm
      refine ⟨_, by rw [Processes.statement, Processes.set_pagedir_eq hb (by simp [hpd])]; rfl, ?_⟩
      refine h.own_published none (Or.inl (Processes.block_of_pcb hb)) hb (fun t _ => rfl) rfl
        (fun t d _ hd => h.dir_live t d hd) rfl h.stack rfl (fun d' hd' => ?_) id fun _ => Or.inr hcr3
      rcases hd' with hd' | ⟨_, hd'⟩
      · cases hd'
      · obtain rfl := Option.some.inj hd'
        exact ⟨h.dir_live _ _ hpub.dir_some, Or.inl hpub.dir_some⟩
  | deactivate d =>
      refine ⟨_, rfl, ?_⟩
      refine h.own_goto rfl rfl rfl rfl h.stack rfl (fun _ => rfl) (fun d' hd' => ?_) hat
        (Processes.Published.active (s := s) hat)
      rw [Processes.Published.dir_none hat, hpc]
      exact hd'
  | pagedir_destroy d =>
      have hpub : s.Published s.current none := hat
      have hd : s.dir s.current = some d := by
        rw [hpub.dir_none, hpc]
        rfl
      rcases hat with ⟨b, hb, hpd⟩
      refine ⟨_, by rw [Processes.statement, if_pos (h.dir_live _ d hd)], ?_⟩
      refine h.own_published none (Or.inl (Processes.block_of_pcb hb)) hb (fun t _ => rfl)
        (by rw [← hpd, Function.update_eq_self]; rfl) (fun t d' ht hd' => ?_) rfl h.stack rfl
        (fun d' hd' => ?_) (fun hp => ⟨_, hp⟩) fun hp => ?_
      · have hne : d' ≠ d := by
          rintro rfl
          exact ht (h.dir_one t _ d' hd' hd)
        exact (Function.update_of_ne hne _ _).trans (h.dir_live t d' hd')
      · rcases hd' with hd' | ⟨_, hd'⟩ <;> cases hd'
      · exact hp.trans (hpub.active.symm.trans hactive)
  | clear_pcb =>
      rcases hat with ⟨pd, b, hb, hpd⟩
      refine ⟨_, by rw [Processes.statement, hb]; rfl, ?_⟩
      exact h.own_clear hb rfl rfl rfl rfl rfl h.stack rfl hactive
  | free_pcb b =>
      have hown : s.block s.current = some b := by
        rw [Processes.block_of_none hat, hpc]
        rfl
      refine ⟨_, by rw [Processes.statement, if_neg (h.block_live _ b hown)], ?_⟩
      refine h.own_block (Or.inl hown) hat rfl rfl rfl rfl h.stack rfl rfl
        (fun b' hb' => by cases hb') hat fun hold d hd => ?_
      exact ⟨(hactive d hd).1, fun t ht => (hactive d hd).2 t (hold t d ht)⟩
  | thread_exit =>
      have hexit : ∀ pc : ProcessPc B D, pc = .thread_exit ∨ pc = .dying →
          ProcessesInv (s.goto pc) := by
        intro pc hpc'
        have hat' : s.At s.current pc := by rcases hpc' with rfl | rfl <;> exact hat
        have hdir' : pc.dir = none := by rcases hpc' with rfl | rfl <;> rfl
        have hlive : ∀ d, s.cr3 = some d → s.live d = true ∧ ∀ t, (s.goto pc).dir t ≠ some d :=
          fun d hd => ⟨(hactive d hd).1, fun t ht =>
            (hactive d hd).2 t (Processes.dir_of_goto hat hdir' ht)⟩
        refine h.own_goto rfl rfl rfl rfl h.stack rfl (fun _ => ?_) (fun d hd => ?_) hat' ?_
        · rcases hpc' with rfl | rfl <;> rfl
        · rw [hdir'] at hd
          cases hd
        · rcases hpc' with rfl | rfl <;> exact hlive
      refine ⟨_, rfl, hexit _ ?_⟩
      cases c.ok
      · exact Or.inr rfl
      · exact Or.inl rfl
  | dying =>
      exact ⟨s, rfl, h⟩

/-! ## Switches and new threads -/

omit [DecidableEq T] [DecidableEq B] [DecidableEq D] in
theorem active_ok (h : ProcessesInv s) (t : T) : ∃ pd, s.active_pagedir t = some pd := by
  cases hpcb : s.pcb t with
  | none =>
      exact ⟨none, Processes.active_of_none hpcb⟩
  | some b =>
      rcases Option.ne_none_iff_exists'.1 (h.block_live t b (Processes.block_of_pcb hpcb)) with ⟨pd, hpd⟩
      exact ⟨pd, Processes.Published.active ⟨b, hpcb, hpd⟩⟩

omit [DecidableEq T] [DecidableEq B] [DecidableEq D] in
theorem switch_ok (h : ProcessesInv s) (hpc : s.pc t = some pc) (hlive : pc ≠ .dying) :
    ∃ s', s.switch t = some s' ∧ ProcessesInv s' := by
  rcases h.active_ok t with ⟨pd, hpd⟩
  refine ⟨{ s with current := t, cr3 := pd, esp0 := t }, by rw [Processes.switch, hpd]; rfl,
    fun u pc' hu => ?_, h.absent, h.block_live, h.block_one, h.dir_live, h.dir_one,
    ⟨pc, hpc, ?_⟩, rfl⟩
  · have hat := h.at_pc u pc' hu
    cases pc' <;> exact hat
  · have hat := h.at_pc t pc hpc
    have hself : ∀ {q}, s.active_pagedir t = some q → pd = q := fun hq =>
      Option.some.inj (hpd.symm.trans hq)
    cases pc with
    | process_activate | pagedir_activate =>
        exact Or.inr hpd
    | deactivate d =>
        exact Or.inl (hself (Processes.Published.active hat))
    | free_pcb | thread_exit =>
        intro d hd
        obtain rfl := hself (Processes.active_of_none hat)
        cases hd
    | dying =>
        exact absurd rfl hlive
    | userprog_init | kernel | start_process | set_pagedir | set_pcb | pagedir_create | tss_update
      | load | user | process_exit | clear_pagedir | pagedir_destroy | clear_pcb =>
        exact hpd

omit [DecidableEq B] [DecidableEq D] in
theorem create_ok (h : ProcessesInv s) {process : Bool}
    (ht : s.pc t = none ∨ (s.pc t = some .dying ∧ t ≠ s.current)) :
    ProcessesInv (s.create t process) := by
  have hnone : s.pcb t = none := by
    rcases ht with ht | ⟨ht, _⟩
    · exact h.absent t ht
    · exact h.at_pc t _ ht
  have htc : s.current ≠ t := by
    rintro rfl
    rcases ht with ht | ⟨_, hne⟩
    · rcases h.active with ⟨pc, hpc, _⟩
      rw [ht] at hpc
      cases hpc
    · exact hne rfl
  have hpcb : (s.create t process).pcb = s.pcb := by
    rw [Processes.create, ← hnone, Function.update_eq_self]
  have hself : (s.create t process).pc t =
      some (if process then ProcessPc.start_process else .kernel) := Function.update_self _ _ _
  have hblock : (s.create t process).block t = none := by
    rw [Processes.block_of_none ((congrFun hpcb t).trans hnone), hself]
    cases process <;> rfl
  have hdir : (s.create t process).dir t = none := by
    rw [Processes.dir_of_none ((congrFun hpcb t).trans hnone), hself]
    cases process <;> rfl
  have hsame : ∀ u, u ≠ t → Processes.Same s (s.create t process) u := fun u hu =>
    ⟨Function.update_of_ne hu _ _, congrFun hpcb u, fun _ _ => rfl⟩
  have hblock' : ∀ u b, (s.create t process).block u = some b → s.block u = some b := by
    intro u b hb
    by_cases hu : u = t
    · rw [hu, hblock] at hb
      cases hb
    · rwa [(hsame u hu).block] at hb
  have hdir' : ∀ u d, (s.create t process).dir u = some d → s.dir u = some d := by
    intro u d hd
    by_cases hu : u = t
    · rw [hu, hdir] at hd
      cases hd
    · rwa [(hsame u hu).dir] at hd
  constructor
  · intro u pc hpc
    by_cases hu : u = t
    · subst hu
      rw [hself, Option.some.injEq] at hpc
      have hnone' := (congrFun hpcb u).trans hnone
      cases process
      · exact hpc ▸ Or.inl hnone'
      · exact hpc ▸ hnone'
    · have hpc' := (hsame u hu).pc.symm.trans hpc
      exact (hsame u hu).at_pc hpc' (h.at_pc u pc hpc')
  · intro u hu
    by_cases hut : u = t
    · rw [hut]
      exact (congrFun hpcb t).trans hnone
    · exact (congrFun hpcb u).trans (h.absent u ((hsame u hut).pc.symm.trans hu))
  · exact fun u b hb => h.block_live u b (hblock' u b hb)
  · exact fun u v b hu hv => h.block_one u v b (hblock' u b hu) (hblock' v b hv)
  · exact fun u d hd => h.dir_live u d (hdir' u d hd)
  · exact fun u v d hu hv => h.dir_one u v d (hdir' u d hu) (hdir' v d hv)
  · rcases h.active with ⟨pc, hpc, hactive⟩
    refine ⟨pc, (hsame _ htc).pc.trans hpc, ?_⟩
    have hkept : (s.create t process).active_pagedir s.current = s.active_pagedir s.current := by
      rw [Processes.active_pagedir, hpcb]
      rfl
    cases pc with
    | process_activate | pagedir_activate =>
        exact hactive.imp_right hkept.trans
    | deactivate d =>
        exact hactive
    | free_pcb | thread_exit | dying =>
        exact fun d hd => ⟨(hactive d hd).1, fun u hu => (hactive d hd).2 u (hdir' u d hu)⟩
    | userprog_init | kernel | start_process | set_pagedir | set_pcb | pagedir_create | tss_update
      | load | user | process_exit | clear_pagedir | pagedir_destroy | clear_pcb =>
        exact hkept.trans hactive
  · exact h.stack

end ProcessesInv

/-! ## Runs -/

variable [DecidableEq B] [DecidableEq D]

theorem ProcessesInv.section_ok (h : ProcessesInv s) {e : ProcessEvent T B D}
    (he : process_enabled s e) : ∃ s', process_section s e = some s' ∧ ProcessesInv s' := by
  cases e with
  | switch t =>
      rcases he with ⟨pc, hpc, hlive⟩
      exact h.switch_ok hpc hlive
  | create t process =>
      exact ⟨_, rfl, h.create_ok he⟩
  | statement c =>
      rcases h.active with ⟨pc, hpc, _⟩
      rcases h.statement_ok he hpc with ⟨s', hs, h'⟩
      exact ⟨s', by rw [process_section, hpc]; exact hs, h'⟩

theorem process_reachable_inv (h : (processSystem T B D).Reachable s) : ProcessesInv s := by
  refine h.invariant (fun s h0 => ?_) fun s e t hi hst => ?_
  · rcases h0 with ⟨hpcb, hcr3, hesp, hpc⟩
    have hpc' : ∀ t pc, s.pc t = some pc → t = s.current ∧ pc = .userprog_init := by
      intro t pc ht
      rw [hpc] at ht
      by_cases htc : t = s.current
      · rw [htc, Function.update_self, Option.some.injEq] at ht
        exact ⟨htc, ht.symm⟩
      · rw [Function.update_of_ne htc] at ht
        cases ht
    have hblock : ∀ t, s.block t = none := by
      intro t
      rw [Processes.block_of_none (hpcb t)]
      rcases ht : s.pc t with _ | pc
      · rfl
      · obtain ⟨_, rfl⟩ := hpc' t pc ht
        rfl
    have hdir : ∀ t, s.dir t = none := by
      intro t
      rw [Processes.dir_of_none (hpcb t)]
      rcases ht : s.pc t with _ | pc
      · rfl
      · obtain ⟨_, rfl⟩ := hpc' t pc ht
        rfl
    constructor
    · intro t pc ht
      obtain ⟨_, rfl⟩ := hpc' t pc ht
      exact hpcb t
    · exact fun t _ => hpcb t
    · intro t b hb
      rw [hblock] at hb
      cases hb
    · intro t u b hb
      rw [hblock] at hb
      cases hb
    · intro t d hd
      rw [hdir] at hd
      cases hd
    · intro t u d hd
      rw [hdir] at hd
      cases hd
    · refine ⟨.userprog_init, by rw [hpc, Function.update_self], ?_⟩
      exact (Processes.active_of_none (hpcb _)).trans (congrArg some hcr3.symm)
    · exact hesp
  · rcases hi.section_ok hst.1 with ⟨t', ht', hi'⟩
    rw [hst.2, Option.some.injEq] at ht'
    exact ht' ▸ hi'

/-- Of every interleaving of threads that start and end processes: the page directory in `%cr3` is
always allocated; no statement and no switch reads, writes or frees a block or a page directory that
is not; and while user code of a thread runs, `%cr3` holds the page directory of its own process,
which no other thread has, and `esp0` points to its own kernel stack. -/
theorem process_runs_isolated (h : (processSystem T B D).Reachable s) :
    (∀ d, s.cr3 = some d → s.live d = true) ∧
    (∀ e, process_enabled s e → ∃ s', process_section s e = some s') ∧
    (s.pc s.current = some .user → s.esp0 = s.current ∧
      ∃ b d, s.pcb s.current = some b ∧ s.pagedir b = some (some d) ∧ s.cr3 = some d ∧
        ∀ t, t ≠ s.current → s.pcb t ≠ some b ∧
          ∀ b', s.pcb t = some b' → s.pagedir b' ≠ some (some d)) := by
  have hinv := process_reachable_inv h
  rcases hinv.active with ⟨pc, hpc, hactive⟩
  have hat := hinv.at_pc _ _ hpc
  -- where `%cr3` is the page directory of the thread that runs
  have hown : ∀ d, s.active_pagedir s.current = some s.cr3 → s.cr3 = some d → s.live d = true := by
    intro d hcr3 hd
    cases hpcb : s.pcb s.current with
    | none =>
        rw [Processes.active_of_none hpcb, hd] at hcr3
        cases hcr3
    | some b =>
        rw [Processes.active_pagedir, hpcb, hd] at hcr3
        exact hinv.dir_live _ d (Processes.Published.dir_some ⟨b, hpcb, hcr3⟩)
  have hnot : ∀ d, s.cr3 = none → s.cr3 = some d → s.live d = true := by
    intro d hnone hd
    rw [hnone] at hd
    cases hd
  refine ⟨fun d hd => ?_, fun e he => ?_, fun huser => ?_⟩
  · cases pc with
    | process_activate | pagedir_activate =>
        exact hactive.elim (fun hnone => hnot d hnone hd) fun hcr3 => hown d hcr3 hd
    | deactivate d' =>
        refine hactive.elim (fun hnone => hnot d hnone hd) fun hcr3 => hinv.dir_live s.current d ?_
        rw [Processes.Published.dir_none hat, hpc, ← hd, hcr3]
        rfl
    | free_pcb | thread_exit | dying =>
        exact (hactive d hd).1
    | userprog_init | kernel | start_process | set_pagedir | set_pcb | pagedir_create | tss_update
      | load | user | process_exit | clear_pagedir | pagedir_destroy | clear_pcb =>
        exact hown d hactive hd
  · exact (hinv.section_ok he).imp fun _ => And.left
  · rw [huser, Option.some.injEq] at hpc
    subst hpc
    rcases hat with ⟨d, b, hb, hd⟩
    have hpub : s.Published s.current (some d) := ⟨b, hb, hd⟩
    refine ⟨hinv.stack, b, d, hb, hd, (Option.some.inj (hpub.active.symm.trans hactive)).symm,
      fun t ht => ⟨fun hbt => ?_, fun b' hb' hd' => ?_⟩⟩
    · exact ht (hinv.block_one t _ b (Processes.block_of_pcb hbt) (Processes.block_of_pcb hb))
    · exact ht (hinv.dir_one t _ d (Processes.Published.dir_some ⟨b', hb', hd'⟩) hpub.dir_some)

/-- The initial thread starts a process; a timer interrupt comes while that loads its program. -/
theorem process_runs_isolated_two : ∃ s : Processes (Fin 2) (Fin 2) (Fin 1),
    (processSystem (Fin 2) (Fin 2) (Fin 1)).Reachable s ∧ s.current = 1 ∧
      s.pc s.current = some .user ∧ s.esp0 = s.current := by
  let s₀ : Processes (Fin 2) (Fin 2) (Fin 1) :=
    ⟨fun _ => none, fun _ => none, fun _ => false, none, 0, 0,
      Function.update (fun _ => none) 0 (some .userprog_init)⟩
  let block (b : Fin 2) : ProcessEvent (Fin 2) (Fin 2) (Fin 1) := .statement ⟨some b, none, none, true⟩
  let dir : ProcessEvent (Fin 2) (Fin 2) (Fin 1) := .statement ⟨none, none, some 0, true⟩
  let go : ProcessEvent (Fin 2) (Fin 2) (Fin 1) := .statement ⟨none, none, none, true⟩
  have h0 : (processSystem (Fin 2) (Fin 2) (Fin 1)).Reachable s₀ :=
    .init ⟨fun _ => rfl, rfl, rfl, rfl⟩
  have h1 := h0.step (l := block 0) ⟨⟨by decide, by decide, by decide⟩, rfl⟩
  have h2 := h1.step (l := ProcessEvent.create 1 true) ⟨Or.inl rfl, rfl⟩
  have h3 := h2.step (l := ProcessEvent.switch 1) ⟨⟨_, rfl, by decide⟩, rfl⟩
  have h4 := h3.step (l := block 1) ⟨⟨by decide, by decide, by decide⟩, rfl⟩
  have h5 := h4.step (l := go) ⟨⟨by decide, by decide, by decide⟩, rfl⟩
  have h6 := h5.step (l := go) ⟨⟨by decide, by decide, by decide⟩, rfl⟩
  have h7 := h6.step (l := dir) ⟨⟨by decide, by decide, by decide⟩, rfl⟩
  have h8 := h7.step (l := ProcessEvent.switch 0) ⟨⟨_, rfl, by decide⟩, rfl⟩
  have h9 := h8.step (l := ProcessEvent.switch 1) ⟨⟨_, rfl, by decide⟩, rfl⟩
  have h10 := h9.step (l := go) ⟨⟨by decide, by decide, by decide⟩, rfl⟩
  have h11 := h10.step (l := go) ⟨⟨by decide, by decide, by decide⟩, rfl⟩
  have h12 := h11.step (l := go) ⟨⟨by decide, by decide, by decide⟩, rfl⟩
  have h13 := h12.step (l := go) ⟨⟨by decide, by decide, by decide⟩, rfl⟩
  exact ⟨_, h13, rfl, rfl, ((process_runs_isolated h13).2.2 rfl).1⟩

end Berk162
