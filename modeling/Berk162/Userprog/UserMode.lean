import Berk162.Userprog.UserSpace
import Mathlib.Logic.Relation

/-!
# UserMode — what user code can do to memory

User code reaches memory through its page directory only.  A store goes to the frame of a page that
is mapped and that the process may write to; on the way the processor sets the accessed and dirty
bits of page table entries.  What others hold keeps its contents, and so does every page that the
process may not write to.
-/

namespace Berk162

/-- A step of the processor in user mode, with the page directory `pd`. -/
inductive UserStep (pd : Nat) : Palloc → Palloc → Prop
  /-- A store of one byte at `uaddr`, whose page table entry is at `pte`. -/
  | store {s : Palloc} {uaddr kaddr pte : Nat} {byte : UInt8} :
      is_user_vaddr uaddr → pagedir_get_page s pd uaddr = some kaddr → kaddr ≠ NULL →
      lookup_page s pd uaddr false = some (s, pte) → word_at s.mem pte &&& PTE_W ≠ 0 →
      UserStep pd s (s.withMem (Function.update s.mem kaddr byte))
  | accessed {s a : Palloc} {uaddr : Nat} :
      is_user_vaddr uaddr → pagedir_set_accessed s pd uaddr true = some a → UserStep pd s a
  | dirty {s a : Palloc} {uaddr : Nat} :
      is_user_vaddr uaddr → pagedir_set_dirty s pd uaddr true = some a → UserStep pd s a

/-- User code between two system calls. -/
def UserRun (pd : Nat) : Palloc → Palloc → Prop := Relation.ReflTransGen (UserStep pd)

/-- Two maps of the same frames, with the same rights. -/
def UserMap.Same (map map' : UserMap) : Prop :=
  ∀ p, (map' p).map (fun m => (m.frame, m.writable)) = (map p).map fun m => (m.frame, m.writable)

theorem UserMap.Same.some {map map' : UserMap} (h : map.Same map') {p : Nat} {m : Mapping}
    (hm : map p = some m) :
    ∃ m', map' p = some m' ∧ m'.frame = m.frame ∧ m'.writable = m.writable := by
  have hp := h p
  rw [hm, Option.map_some, Option.map_eq_some_iff] at hp
  rcases hp with ⟨m', hm', heq⟩
  exact ⟨m', hm', congrArg Prod.fst heq, congrArg Prod.snd heq⟩

section

variable {s : Loader} {kernel : Nat → BitVec 32} {kern others : List Group} {pt : Nat → Option Nat}
  {map : UserMap} {a : Palloc}

/-- What user code leaves as it was. -/
structure LoaderAt.Kept (s : Loader) (kernel : Nat → BitVec 32) (kern others : List Group)
    (pt : Nat → Option Nat) (map : UserMap) (a : Palloc) : Prop where
  space : ∃ map', LoaderAt (s.setAlloc a) kernel kern others pt map' ∧ map.Same map'
  others : ∀ g ∈ kern ++ others, ∀ q ∈ g.bytes, a.mem q = s.alloc.mem q
  read_only : ∀ p m, map p = some m → m.writable = false →
    ∀ q ∈ page_bytes m.frame.pages, a.mem q = s.alloc.mem q
  pools : a = s.alloc.withMem a.mem

namespace LoaderAt

/-- A frame and what others hold have no byte in common. -/
theorem frame_others (h : LoaderAt s kernel kern others pt map) {g : Group} (hg : g ∈ kern ++ others)
    {p : Nat} {m : Mapping} (hm : map p = some m) {q : Nat} (hq : q ∈ page_bytes m.frame.pages) :
    q ∉ g.bytes := by
  have hframe := h.frame_mem hm
  rw [← h.frame_bytes hm] at hq
  refine h.inv.pages.disjoint (List.mem_append_left _ hframe) (List.mem_append_right _ hg) ?_ q hq
  rintro rfl
  exact (List.nodup_append.1 h.inv.pages.nodup).2.2 _ hframe _ hg rfl

/-- No frame is mapped at two pages. -/
theorem frame_one (h : LoaderAt s kernel kern others pt map) {p p' : Nat} {m m' : Mapping}
    (hm : map p = some m) (hm' : map p' = some m') (heq : m.frame = m'.frame) : p = p' := by
  have hdir := h.inv.dir h.pagedir_ne
  have hnodup := (List.nodup_append.1 h.inv.pages.nodup).1
  simp only [Loader.run, dir_groups] at hnodup
  have hheld := (List.nodup_append.1 hnodup).1
  rw [List.nodup_flatMap] at hheld
  rcases hheld with ⟨hone, hapart⟩
  rcases hdir.user p (by simp [Loader.run, hm]) with ⟨i, j, hi, hj, rfl⟩
  rcases hdir.user p' (by simp [Loader.run, hm']) with ⟨i', j', hi', hj', rfl⟩
  have hmem : m.frame ∈ frame_at map i j := by simp [frame_at, hm]
  have hmem' : m.frame ∈ frame_at map i' j' := by simp [frame_at, hm', heq]
  have hheld : ∀ {i j}, j < 1024 → m.frame ∈ frame_at map i j → m.frame ∈ held_at pt map i :=
    fun hj hin => List.mem_append_left _ (List.mem_flatMap.2 ⟨_, List.mem_range.2 hj, hin⟩)
  have hii : i = i' := by
    by_contra hne
    have hsymm : Std.Symm (Function.onFun List.Disjoint (held_at pt map)) := ⟨fun _ _ h => h.symm⟩
    have hdis := hapart.forall (List.mem_range.2 hi) (List.mem_range.2 hi') hne
    exact hdis (hheld hj hmem) (hheld hj' hmem')
  subst hii
  have hframes := (List.nodup_append.1 (hone i (List.mem_range.2 hi))).1
  rw [List.nodup_flatMap] at hframes
  have hjj : j = j' := by
    by_contra hne
    have hsymm : Std.Symm (Function.onFun List.Disjoint (frame_at map i)) := ⟨fun _ _ h => h.symm⟩
    have hdis := hframes.2.forall (List.mem_range.2 hj) (List.mem_range.2 hj') hne
    exact hdis hmem hmem'
  rw [hjj]

/-- The frames of two pages have no byte in common. -/
theorem frame_frame (h : LoaderAt s kernel kern others pt map) {p p' : Nat} {m m' : Mapping}
    (hm : map p = some m) (hm' : map p' = some m') (hne : m.frame ≠ m'.frame) {q : Nat}
    (hq : q ∈ page_bytes m.frame.pages) : q ∉ page_bytes m'.frame.pages := by
  rw [← h.frame_bytes hm] at hq
  rw [← h.frame_bytes hm']
  exact h.inv.pages.disjoint (List.mem_append_left _ (h.frame_mem hm))
    (List.mem_append_left _ (h.frame_mem hm')) hne q hq

/-! ### Each step -/

/-- A flag of a page table entry is set. -/
theorem set_flag (h : LoaderAt s kernel kern others pt map) {uaddr : Nat} (hu : is_user_vaddr uaddr)
    {f : BitVec 32} {set : Bool → Mapping → Mapping} (hf : FlagOf f set)
    (hkeep : ∀ v m, (set v m).frame = m.frame ∧ (set v m).writable = m.writable)
    (hcall : pagedir_set f s.alloc s.pagedir uaddr true = some a) :
    LoaderAt.Kept s kernel kern others pt map a := by
  rcases (h.inv.dir h.pagedir_ne).pagedir_set (h.inv.apart h.pagedir_ne) hu hf true with
    ⟨a', hcall', hchanged⟩
  rcases h.inv.set_flag h.pagedir_ne hu hf true with ⟨a'', hcall'', hinv⟩
  dsimp only [Loader.run] at hcall' hcall''
  obtain rfl : a' = a := by
    rw [hcall, Option.some.injEq] at hcall'
    exact hcall'.symm
  obtain rfl : a'' = a' := by
    rw [hcall, Option.some.injEq] at hcall''
    exact hcall''.symm
  have hmap : ∀ p, (map.modify uaddr (set true)) p = map p ∨
      ∃ m, map p = some m ∧ map.modify uaddr (set true) p = some (set true m) := by
    intro p
    by_cases hp : p = pg_round_down uaddr
    · subst hp
      cases hm : map (pg_round_down uaddr) with
      | none =>
          exact Or.inl (by rw [UserMap.modify, Function.update_self, hm, Option.map_none])
      | some m =>
          exact Or.inr ⟨m, rfl, by rw [UserMap.modify, Function.update_self, hm, Option.map_some]⟩
    · exact Or.inl (Function.update_of_ne hp _ _)
  refine ⟨⟨_, ⟨hinv, h.pagedir_ne, fun p m hm => ?_⟩, fun p => ?_⟩, fun g hg q hq => ?_,
    fun p m hm _ q hq => ?_, hchanged.alloc⟩
  · rcases hmap p with hsame | ⟨m', hm', hset⟩
    · exact h.user p m (hsame.symm.trans hm)
    · obtain rfl : set true m' = m := Option.some.inj (hset.symm.trans hm)
      rw [(hkeep true m').1]
      exact h.user p m' hm'
  · rcases hmap p with hsame | ⟨m', hm', hset⟩
    · dsimp only [Loader.run] at hsame ⊢
      rw [hsame]
    · dsimp only [Loader.run] at hset ⊢
      rw [hset, hm', Option.map_some, Option.map_some, (hkeep true m').1, (hkeep true m').2]
  · exact hchanged.frame q (outside_of_live h.inv.pages h.pagedir_ne hg hq)
  · exact hchanged.frame q (h.frame_outside hm hq)

/-- A store goes to the frame of a page that the process may write to. -/
theorem store (h : LoaderAt s kernel kern others pt map) {uaddr kaddr pte : Nat} {byte : UInt8}
    (hu : is_user_vaddr uaddr) (hget : pagedir_get_page s.alloc s.pagedir uaddr = some kaddr)
    (hk : kaddr ≠ NULL) (hpte : lookup_page s.alloc s.pagedir uaddr false = some (s.alloc, pte))
    (hw : word_at s.alloc.mem pte &&& PTE_W ≠ 0) :
    LoaderAt.Kept s kernel kern others pt map
      (s.alloc.withMem (Function.update s.alloc.mem kaddr byte)) := by
  have hgood := h.inv.good h.pagedir_ne
  have hget' := hgood.get_page uaddr hu
  dsimp only [Loader.run] at hget'
  rw [hget, Option.some.injEq] at hget'
  cases hm : map (pg_round_down uaddr) with
  | none =>
      rw [hm] at hget'
      exact absurd hget' hk
  | some m =>
      rw [hm] at hget'
      dsimp only at hget'
      rcases hgood.entry uaddr m hu hm with ⟨pte', hpte', he⟩
      obtain rfl : pte' = pte := by
        rw [Loader.run, hpte, Option.some.injEq, Prod.mk.injEq] at hpte'
        exact hpte'.2.symm
      have hwritable : m.writable = true := by
        rw [← he.writable]
        exact flag_eq_true.2 hw
      have hin : kaddr ∈ page_bytes m.frame.pages := by
        rw [mem_page_bytes, hget']
        exact ⟨Nat.le_add_right _ _, Nat.add_lt_add_left (Nat.mod_lt uaddr (by decide)) _⟩
      have hkeep : ∀ q, q ≠ kaddr → Function.update s.alloc.mem kaddr byte q = s.alloc.mem q :=
        fun q hq => Function.update_of_ne hq _ _
      have hguarded : ∀ q, (s.run kernel map others).Guarded q →
          Function.update s.alloc.mem kaddr byte q = s.alloc.mem q := by
        rintro q hq
        refine hkeep q ?_
        rintro rfl
        rcases hq with hq | ⟨_, hq⟩
        · rw [← page_group_bytes] at hq
          exact h.frame_others h.inv.init_mem hm hin hq
        · have hout := h.frame_outside hm hin
          rcases hq with hq | ⟨i, t, hi, ht, hq⟩
          · exact hout.1 hq
          · rcases (h.inv.table_iff h.pagedir_ne t).1 ⟨i, hi, ht⟩ with ⟨i', hi', ht'⟩
            exact hout.2 i' t hi' ht' hq
      refine ⟨⟨map, ⟨h.inv.write hguarded, h.pagedir_ne, h.user⟩, fun _ => rfl⟩,
        fun g hg q hq => hkeep q ?_, fun p m' hm' hro q hq => hkeep q ?_, rfl⟩
      · rintro rfl
        exact h.frame_others hg hm hin hq
      · rintro rfl
        refine h.frame_frame hm hm' (fun heq => ?_) hin hq
        obtain rfl := h.frame_one hm hm' heq
        rw [hm, Option.some.injEq] at hm'
        rw [← hm', hwritable] at hro
        cases hro

theorem user_step (h : LoaderAt s kernel kern others pt map) (hstep : UserStep s.pagedir s.alloc a) :
    LoaderAt.Kept s kernel kern others pt map a := by
  generalize hs : s.alloc = p at hstep
  cases hstep with
  | store hu hget hk hpte hw =>
      subst hs
      exact h.store hu hget hk hpte hw
  | accessed hu hcall =>
      subst hs
      exact h.set_flag hu flagOf_accessed (fun _ _ => ⟨rfl, rfl⟩) hcall
  | dirty hu hcall =>
      subst hs
      exact h.set_flag hu flagOf_dirty (fun _ _ => ⟨rfl, rfl⟩) hcall

/-- What one step keeps, a run keeps. -/
theorem user_run (h : LoaderAt s kernel kern others pt map) (hrun : UserRun s.pagedir s.alloc a) :
    LoaderAt.Kept s kernel kern others pt map a := by
  induction hrun with
  | refl =>
      exact ⟨⟨map, h, fun _ => rfl⟩, fun _ _ _ _ => rfl, fun _ _ _ _ _ _ => rfl, rfl⟩
  | @tail b c _ hstep ih =>
      rcases ih with ⟨⟨map', hat, hsame⟩, hothers, hro, hpools⟩
      rcases hat.user_step hstep with ⟨⟨map'', hat', hsame'⟩, hothers', hro', hpools'⟩
      refine ⟨⟨map'', hat', fun p => (hsame' p).trans (hsame p)⟩, fun g hg q hq => ?_,
        fun p m hm hw q hq => ?_, ?_⟩
      · exact (hothers' g hg q hq).trans (hothers g hg q hq)
      · rcases hsame.some hm with ⟨m', hm', hframe, hw'⟩
        rw [← hframe] at hq
        refine (hro' p m' hm' (hw'.trans hw) q hq).trans (hro p m hm hw q ?_)
        rwa [hframe] at hq
      · calc c = b.withMem c.mem := hpools'
          _ = (s.alloc.withMem b.mem).withMem c.mem := congrArg (fun p => p.withMem c.mem) hpools
          _ = s.alloc.withMem c.mem := rfl

end LoaderAt

end

end Berk162
