import Berk162.LibKernel.ListOps

/-!
# ListSortLinks — `list_sort` on links

The sorting functions of `lib/kernel/list.c` as they follow and change links.  They do to a
well-formed list what the functions of the same names do to the sequence of its elements, and these
are stable.
-/

namespace Berk162

/-- What the merge of sequences asserts. -/
theorem sorted_of_inplace_merge {α : Type} {less : α → α → Bool} {as bs l : List α}
    (hl : inplace_merge less as bs = some l) :
    is_sorted less as = true ∧ is_sorted less bs = true ∧ merge_loop less as bs = l := by
  obtain ⟨_, has, hl⟩ := Option.bind_eq_some_iff.1 hl
  obtain ⟨_, hbs, hl⟩ := Option.bind_eq_some_iff.1 hl
  exact ⟨ASSERT_eq_some.1 has, ASSERT_eq_some.1 hbs, Option.some.inj hl⟩

namespace Links

variable (list : ListHeader) (less : Nat → Nat → Bool)

/-- The loop of `is_sorted` from `a` on. -/
def sorted_from (s : Links Nat) (b : Nat) : Nat → Nat → Option Bool
  | 0, _ => none
  | fuel + 1, a => do
      let a ← s.list_next a
      if a ≠ b then
        if less a (← s.list_prev a) then return false
        else sorted_from s b fuel a
      else return true

def is_sorted (s : Links Nat) (fuel a b : Nat) : Option Bool :=
  if a ≠ b then sorted_from less s b fuel a else some true

/-- The loop of `find_end_of_run`. -/
def end_of_run_from (s : Links Nat) (b : Nat) : Nat → Nat → Option Nat
  | 0, _ => none
  | fuel + 1, a => do
      let a ← s.list_next a
      if a ≠ b then
        if !less a (← s.list_prev a) then end_of_run_from s b fuel a
        else return a
      else return a

def find_end_of_run (fuel : Nat) (s : Links Nat) (a b : Nat) : Option Nat := do
  ASSERT (a ≠ NULL)
  ASSERT (b ≠ NULL)
  ASSERT (a ≠ b)
  end_of_run_from less s b fuel a

/-- The loop of `inplace_merge`. -/
def merge_from (b1 : Nat) : Nat → Links Nat → Nat → Nat → Option (Links Nat)
  | 0, _, _, _ => none
  | fuel + 1, s, a0, a1b0 => do
      if a0 ≠ a1b0 ∧ a1b0 ≠ b1 then
        if !less a1b0 a0 then merge_from b1 fuel s (← s.list_next a0) a1b0
        else
          let a1b0 ← s.list_next a1b0
          let s ← s.list_splice a0 (← s.list_prev a1b0) a1b0
          merge_from b1 fuel s a0 a1b0
      else return s

def inplace_merge (fuel : Nat) (s : Links Nat) (a0 a1b0 b1 : Nat) : Option (Links Nat) := do
  ASSERT (a0 ≠ NULL)
  ASSERT (a1b0 ≠ NULL)
  ASSERT (b1 ≠ NULL)
  ASSERT (← is_sorted less s fuel a0 a1b0)
  ASSERT (← is_sorted less s fuel a1b0 b1)
  merge_from less b1 fuel s a0 a1b0

/-- The pass of `list_sort` over the list from `a0` on, with the number of runs so far. -/
def pass_from : Nat → Links Nat → Nat → Nat → Option (Nat × Links Nat)
  | 0, _, _, _ => none
  | fuel + 1, s, output_run_cnt, a0 => do
      if a0 ≠ list.tail then
        let output_run_cnt := output_run_cnt + 1
        let a1b0 ← find_end_of_run less fuel s a0 list.tail
        if a1b0 = list.tail then
          return (output_run_cnt, s)
        else
          let b1 ← find_end_of_run less fuel s a1b0 list.tail
          let s ← inplace_merge less fuel s a0 a1b0 b1
          pass_from fuel s output_run_cnt b1
      else return (output_run_cnt, s)

/-- The passes of `list_sort`. -/
def passes_from : Nat → Links Nat → Option (Links Nat)
  | 0, _ => none
  | fuel + 1, s => do
      let (output_run_cnt, s) ← pass_from list less fuel s 0 (← s.list_begin list)
      if output_run_cnt > 1 then passes_from fuel s
      else return s

def list_sort (fuel : Nat) (s : Links Nat) : Option (Links Nat) := do
  ASSERT (list.head ≠ NULL)
  let s ← passes_from list less fuel s
  ASSERT (← is_sorted less s fuel (← s.list_begin list) list.tail)
  return s

/-! ## Ranges -/

section Ranges

variable {s s' : Links Nat} {list : ListHeader} {less : Nat → Nat → Bool}
  {ps qs r as bs : List Nat} {a b e : Nat}

/-- A pointer to an element is not one to what comes after it. -/
theorem ne_first (h : IsList s list (ps ++ e :: (r ++ qs))) : e ≠ list.first qs := by
  rw [List.append_cons, ← List.append_assoc] at h
  have hfront : e ∈ list.head :: (ps ++ [e] ++ r) := List.mem_cons_of_mem _
    (List.mem_append_left r (List.mem_append_right ps (List.mem_singleton_self e)))
  exact fun heq => h.apart hfront (heq ▸ List.mem_of_head? (list.head?_append qs))

/-- The node in front of an element. -/
theorem list_prev_elem (h : IsList s list (ps ++ e :: b :: qs)) : s.list_prev b = some e := by
  rw [List.append_cons] at h
  have hprev := h.list_prev
  rwa [ListHeader.last_concat] at hprev

theorem sorted_from_spec (less : Nat → Nat → Bool) (r : List Nat) :
    ∀ ps a, IsList s list (ps ++ a :: (r ++ qs)) → ∀ fuel, r.length < fuel →
      sorted_from less s (list.first qs) fuel a = some (Berk162.is_sorted less (a :: r)) := by
  induction r with
  | nil =>
      intro ps a h fuel hfuel
      obtain ⟨fuel, rfl⟩ := Nat.exists_eq_add_of_le' (show 1 ≤ fuel from hfuel)
      rw [sorted_from, list_next_elem h]
      exact if_neg (not_not.2 rfl)
  | cons x r ih =>
      intro ps a h fuel hfuel
      obtain ⟨fuel, rfl⟩ := Nat.exists_eq_add_of_le' (show 1 ≤ fuel by omega)
      have hprev := list_prev_elem h
      have hnext := list_next_elem h
      rw [List.append_cons] at h
      have hne := ne_first h
      rw [sorted_from, hnext]
      refine (if_pos hne).trans ?_
      change (s.list_prev x).bind _ = _
      rw [hprev, Berk162.is_sorted]
      cases hlt : less x a with
      | true => exact if_pos hlt
      | false =>
          refine (if_neg (ne_true_of_eq_false hlt)).trans ?_
          exact ih _ _ h fuel (Nat.lt_of_succ_lt_succ hfuel)

theorem is_sorted_spec (less : Nat → Nat → Bool) (h : IsList s list (ps ++ (r ++ qs))) (fuel : Nat)
    (hfuel : r.length ≤ fuel) :
    is_sorted less s fuel (list.first (r ++ qs)) (list.first qs) =
      some (Berk162.is_sorted less r) := by
  cases r with
  | nil => exact if_neg (not_not.2 rfl)
  | cons a r =>
      refine (if_pos (ne_first h)).trans ?_
      exact sorted_from_spec less r ps a h fuel hfuel

theorem end_of_run_from_spec (less : Nat → Nat → Bool) (l : List Nat) :
    ∀ ps a, IsList s list (ps ++ a :: l) → ∀ fuel, l.length < fuel →
      end_of_run_from less s list.tail fuel a =
        some (list.first (Berk162.find_end_of_run less a l).2) := by
  induction l with
  | nil =>
      intro ps a h fuel hfuel
      obtain ⟨fuel, rfl⟩ := Nat.exists_eq_add_of_le' (show 1 ≤ fuel from hfuel)
      rw [end_of_run_from, list_next_elem h]
      exact if_neg (not_not.2 rfl)
  | cons x l ih =>
      intro ps a h fuel hfuel
      obtain ⟨fuel, rfl⟩ := Nat.exists_eq_add_of_le' (show 1 ≤ fuel by omega)
      have hprev := list_prev_elem h
      have hnext := list_next_elem h
      rw [List.append_cons] at h
      rw [end_of_run_from, hnext]
      refine (if_pos (elem_ne_tail h)).trans ?_
      change (s.list_prev x).bind _ = _
      rw [hprev, Berk162.find_end_of_run]
      cases hlt : less x a with
      | true => exact if_neg (by simp [hlt])
      | false =>
          refine (if_pos (by simp [hlt])).trans ?_
          exact ih _ _ h fuel (Nat.lt_of_succ_lt_succ hfuel)

theorem find_end_of_run_spec (less : Nat → Nat → Bool) {l : List Nat}
    (h : IsList s list (ps ++ a :: l)) {fuel : Nat} (hfuel : l.length < fuel) :
    find_end_of_run less fuel s a list.tail =
      some (list.first (Berk162.find_end_of_run less a l).2) := by
  have hnil : IsList s list ((ps ++ a :: l) ++ []) := by rwa [List.append_nil]
  rw [find_end_of_run, ASSERT_pos (show a ≠ NULL from h.first_ne_null),
    ASSERT_pos (show list.tail ≠ NULL from hnil.first_ne_null), ASSERT_pos (elem_ne_tail h)]
  exact end_of_run_from_spec less l ps a h fuel hfuel

/-! ## Merging -/

/-- Each pass of the loop leaves one element more in front of what is still to be merged. -/
theorem merge_from_spec (less : Nat → Nat → Bool) (n : Nat) : ∀ as bs ps s,
    as.length + bs.length = n → IsList s list (ps ++ (as ++ (bs ++ qs))) →
    ∃ s', (∀ fuel, n < fuel → merge_from less (list.first qs) fuel s
        (list.first (as ++ (bs ++ qs))) (list.first (bs ++ qs)) = some s') ∧
      IsList s' list (ps ++ (merge_loop less as bs ++ qs)) ∧
      SameOff (list.nodes (ps ++ (as ++ (bs ++ qs)))) s s' := by
  induction n using Nat.strong_induction_on with
  | _ n ih =>
      intro as bs ps s hn h
      cases as with
      | nil =>
          refine ⟨s, fun fuel hfuel => ?_, by rwa [merge_loop], SameOff.refl _ _⟩
          obtain ⟨fuel, rfl⟩ := Nat.exists_eq_add_of_le' (show 1 ≤ fuel by omega)
          exact if_neg fun hne => hne.1 rfl
      | cons a as =>
          cases bs with
          | nil =>
              refine ⟨s, fun fuel hfuel => ?_, by rwa [merge_loop_eq, List.merge_right],
                SameOff.refl _ _⟩
              obtain ⟨fuel, rfl⟩ := Nat.exists_eq_add_of_le' (show 1 ≤ fuel by omega)
              exact if_neg fun hne => hne.2 rfl
          | cons b bs =>
              -- neither pointer has reached the end of its run
              have hsplit := h
              rw [← List.append_assoc] at hsplit
              have hfirst : a ≠ list.first (b :: (bs ++ qs)) := ne_first h
              have hne : a ≠ b ∧ b ≠ list.first qs := ⟨hfirst, ne_first hsplit⟩
              rw [List.length_cons, List.length_cons] at hn
              rw [merge_loop]
              cases hlt : less b a with
              | false =>
                  -- `a0` goes on
                  have hnext := list_next_elem h
                  have h' := h
                  rw [List.cons_append, List.append_cons] at h'
                  obtain ⟨s', hloop, hlist, hsame⟩ := ih (as.length + (b :: bs).length)
                    (by rw [List.length_cons]; omega) as (b :: bs) _ s rfl h'
                  rw [← List.append_cons] at hlist hsame
                  refine ⟨s', fun fuel hfuel => ?_, hlist, hsame⟩
                  obtain ⟨fuel, rfl⟩ := Nat.exists_eq_add_of_le' (show 1 ≤ fuel by omega)
                  refine (if_pos hne).trans ((if_pos (by simp [hlt])).trans ?_)
                  change (s.list_next a).bind _ = _
                  rw [hnext]
                  exact hloop fuel (by rw [List.length_cons]; omega)
              | true =>
                  -- `b` is put in front of `a0`
                  have hnext := list_next_elem hsplit
                  have hprev : s.list_prev (list.first (bs ++ qs)) = some b := by
                    rw [List.cons_append, List.append_cons] at hsplit
                    have hlast := hsplit.list_prev
                    rwa [ListHeader.last_concat] at hlast
                  have hlist : IsList s list (ps ++ ((a :: as) ++ ([b] ++ (bs ++ qs)))) := h
                  obtain ⟨s₁, hsplice, hlist₁, hsame₁⟩ :=
                    list_splice_backward hlist (List.cons_ne_nil a as)
                  have hperm : (ps ++ ([b] ++ ((a :: as) ++ (bs ++ qs)))).Perm
                      (ps ++ ((a :: as) ++ ([b] ++ (bs ++ qs)))) :=
                    (List.perm_append_comm_assoc _ _ _).append_left ps
                  have hlist₂ : IsList s₁ list ((ps ++ [b]) ++ ((a :: as) ++ (bs ++ qs))) := by
                    rwa [List.append_assoc]
                  obtain ⟨s', hloop, hlist', hsame'⟩ := ih ((a :: as).length + bs.length)
                    (by rw [List.length_cons]; omega) (a :: as) bs _ s₁ rfl hlist₂
                  rw [List.append_assoc ps [b]] at hlist' hsame'
                  refine ⟨s', fun fuel hfuel => ?_, hlist',
                    hsame₁.trans (hsame'.mono fun e he => (list.nodes_of_perm hperm).subset he)⟩
                  obtain ⟨fuel, rfl⟩ := Nat.exists_eq_add_of_le' (show 1 ≤ fuel by omega)
                  refine (if_pos hne).trans ((if_neg (by simp [hlt])).trans ?_)
                  change (s.list_next b).bind _ = _
                  rw [hnext]
                  change (s.list_prev (list.first (bs ++ qs))).bind _ = _
                  rw [hprev]
                  change (s.list_splice a b (list.first (bs ++ qs))).bind _ = _
                  rw [show s.list_splice a b (list.first (bs ++ qs)) = some s₁ from hsplice]
                  exact hloop fuel (by rw [List.length_cons]; omega)

theorem inplace_merge_spec (less : Nat → Nat → Bool) {l : List Nat}
    (h : IsList s list (ps ++ (as ++ (bs ++ qs))))
    (hl : Berk162.inplace_merge less as bs = some l) :
    ∃ s', (∀ fuel, as.length + bs.length < fuel → inplace_merge less fuel s
        (list.first (as ++ (bs ++ qs))) (list.first (bs ++ qs)) (list.first qs) = some s') ∧
      IsList s' list (ps ++ (l ++ qs)) ∧ SameOff (list.nodes (ps ++ (as ++ (bs ++ qs)))) s s' := by
  obtain ⟨has, hbs, rfl⟩ := sorted_of_inplace_merge hl
  obtain ⟨s', hloop, hlist, hsame⟩ := merge_from_spec less _ as bs ps s rfl h
  refine ⟨s', fun fuel hfuel => ?_, hlist, hsame⟩
  have h₁ := h
  rw [← List.append_assoc] at h₁
  have h₂ := h₁
  rw [← List.append_assoc] at h₂
  have hsorted := is_sorted_spec less h fuel (by omega)
  have hsorted' := is_sorted_spec less h₁ fuel (by omega)
  rw [inplace_merge, ASSERT_pos h.first_ne_null, ASSERT_pos h₁.first_ne_null,
    ASSERT_pos h₂.first_ne_null, hsorted, hsorted', has, hbs]
  exact hloop fuel hfuel

/-! ## Passes -/

/-- `pass_from` does what `sort_pass` does to the elements that are still to come. -/
def PassFrom (list : ListHeader) (less : Nat → Nat → Bool) (l : List Nat) (n : Nat)
    (l' : List Nat) : Prop :=
  ∀ ps s, IsList s list (ps ++ l) →
    ∃ s', (∀ fuel cnt, l.length + 1 < fuel →
        pass_from list less fuel s cnt (list.first l) = some (cnt + n, s')) ∧
      IsList s' list (ps ++ l') ∧ SameOff (list.nodes (ps ++ l)) s s'

theorem pass_from_spec {less : Nat → Nat → Bool} (hless : StrictWeakOrder less)
    (list : ListHeader) (l : List Nat) :
    ∀ n l', sort_pass less l = some (n, l') → PassFrom list less l n l' := by
  refine sort_pass_induction (motive := PassFrom list less) ?_ ?_ ?_ l
  · intro ps s h
    refine ⟨s, fun fuel cnt hfuel => ?_, h, SameOff.refl _ _⟩
    obtain ⟨fuel, rfl⟩ := Nat.exists_eq_add_of_le' (show 1 ≤ fuel by omega)
    exact if_neg (not_not.2 rfl)
  · -- one run is left
    intro a l hrest ps s h
    refine ⟨s, fun fuel cnt hfuel => ?_, h, SameOff.refl _ _⟩
    obtain ⟨fuel, rfl⟩ := Nat.exists_eq_add_of_le' (show 1 ≤ fuel by omega)
    rw [List.length_cons] at hfuel
    refine (if_pos (elem_ne_tail h)).trans ?_
    change (find_end_of_run less fuel s a list.tail).bind _ = _
    rw [find_end_of_run_spec less h (by omega), hrest]
    exact if_pos rfl
  · -- two runs are merged, and the pass goes on behind them
    intro a l b l₁ merged n rest hrest hmerge ih ps s h
    have hfirst := find_end_of_run_append less a l
    have hsecond := find_end_of_run_append less b l₁
    rw [hrest] at hfirst
    have hlist : IsList s list (ps ++ ((Berk162.find_end_of_run less a l).1 ++
        ((Berk162.find_end_of_run less b l₁).1 ++ (Berk162.find_end_of_run less b l₁).2))) := by
      rwa [hsecond, hfirst]
    obtain ⟨s₁, hmerged, hlist₁, hsame₁⟩ := inplace_merge_spec less hlist hmerge
    rw [hsecond, hfirst] at hmerged hsame₁
    rw [← List.append_assoc] at hlist₁
    obtain ⟨s', hloop, hlist', hsame'⟩ := ih (ps ++ merged) s₁ hlist₁
    rw [List.append_assoc] at hlist'
    refine ⟨s', fun fuel cnt hfuel => ?_, hlist', hsame₁.trans (hsame'.mono ?_)⟩
    · obtain ⟨fuel, rfl⟩ := Nat.exists_eq_add_of_le' (show 1 ≤ fuel by omega)
      have hb : IsList s list ((ps ++ (Berk162.find_end_of_run less a l).1) ++ b :: l₁) := by
        rwa [List.append_assoc, hfirst]
      have hlen := congrArg List.length hfirst
      have hlen₁ := congrArg List.length hsecond
      have hlt := sort_pass_length hrest
      rw [List.length_append, List.length_cons, List.length_cons] at hlen
      rw [List.length_append, List.length_cons] at hlen₁
      rw [List.length_cons] at hfuel hlt
      refine (if_pos (elem_ne_tail h)).trans ?_
      change (find_end_of_run less fuel s a list.tail).bind _ = _
      rw [find_end_of_run_spec less h (by omega), hrest, Option.bind_some]
      refine (if_neg (elem_ne_tail hb)).trans ?_
      change (find_end_of_run less fuel s b list.tail).bind _ = _
      rw [find_end_of_run_spec less hb (by omega), Option.bind_some]
      change (inplace_merge less fuel s (list.first (a :: l)) (list.first (b :: l₁)) _).bind _ = _
      rw [hmerged fuel (by omega), Option.bind_some, hloop fuel (cnt + 1) (by omega),
        Nat.add_assoc, Nat.add_comm 1 n]
    · obtain ⟨has, hbs, -⟩ := sorted_of_inplace_merge hmerge
      obtain ⟨merged', hmerge', hperm, -⟩ := Berk162.inplace_merge_spec hless has hbs
      obtain rfl := Option.some.inj (hmerge.symm.trans hmerge')
      have hall : (ps ++ merged ++ (Berk162.find_end_of_run less b l₁).2).Perm (ps ++ a :: l) := by
        have hrest' :=
          (hperm.append_right (Berk162.find_end_of_run less b l₁).2).append_left ps
        rwa [List.append_assoc (Berk162.find_end_of_run less a l).1, hsecond, hfirst,
          ← List.append_assoc] at hrest'
      exact fun e he => (list.nodes_of_perm hall).subset he

theorem passes_from_spec {less : Nat → Nat → Bool} (hless : StrictWeakOrder less) (passes : Nat) :
    ∀ l s l', IsList s list l → Berk162.list_sort less passes l = some l' →
    ∃ s', (∀ fuel, l.length + 1 + passes < fuel → passes_from list less fuel s = some s') ∧
      IsList s' list l' ∧ Berk162.is_sorted less l' = true ∧ l'.Perm l ∧
      SameOff (list.nodes l) s s' := by
  induction passes with
  | zero =>
      intro l s l' _ hsort
      cases hsort
  | succ passes ih =>
      intro l s l' h hsort
      -- the links follow the sequence, whose passes are known to end
      obtain ⟨n, l₁, hpass, hperm, -, -⟩ := sort_pass_spec hless l
      obtain ⟨s₁, hloop, hlist₁, hsame₁⟩ := pass_from_spec hless list l n l₁ hpass [] s h
      rw [Berk162.list_sort, hpass] at hsort
      have hlen := hperm.length_eq
      have hnodes : ∀ e ∈ list.nodes l₁, e ∈ list.nodes l := fun e he =>
        (list.nodes_of_perm hperm).subset he
      have hstep : ∀ fuel, l.length + 1 < fuel → passes_from list less (fuel + 1) s =
          if n > 1 then passes_from list less fuel s₁ else some s₁ := by
        intro fuel hfuel
        have hloop' := hloop fuel 0 hfuel
        rw [Nat.zero_add] at hloop'
        rw [passes_from, list_begin_eq h]
        change (pass_from list less fuel s 0 (list.first l)).bind _ = _
        rw [hloop']
        rfl
      change (if n > 1 then Berk162.list_sort less passes l₁ else _) = some l' at hsort
      by_cases hn : n > 1
      · rw [if_pos hn] at hsort
        obtain ⟨s', hrest, hlist', hsorted, hperm', hsame'⟩ := ih l₁ s₁ l' hlist₁ hsort
        refine ⟨s', fun fuel hfuel => ?_, hlist', hsorted, hperm'.trans hperm,
          hsame₁.trans (hsame'.mono hnodes)⟩
        obtain ⟨fuel, rfl⟩ := Nat.exists_eq_add_of_le' (show 1 ≤ fuel by omega)
        rw [hstep fuel (by omega), if_pos hn]
        exact hrest fuel (by omega)
      · rw [if_neg hn] at hsort
        obtain ⟨_, hsorted, hsort⟩ := Option.bind_eq_some_iff.1 hsort
        obtain rfl := Option.some.inj hsort
        refine ⟨s₁, fun fuel hfuel => ?_, hlist₁, ASSERT_eq_some.1 hsorted, hperm, hsame₁⟩
        obtain ⟨fuel, rfl⟩ := Nat.exists_eq_add_of_le' (show 1 ≤ fuel by omega)
        rw [hstep fuel (by omega), if_neg hn]

end Ranges

end Links

/-! ## Stability -/

section Stability

variable {α : Type} {less : α → α → Bool} {as bs l l' : List α} {a : α}

instance (less : α → α → Bool) (a b : α) : Decidable (Same less a b) :=
  inferInstanceAs (Decidable (_ ∧ _))

/-- The elements that are equal to `c`, in their order. -/
def equal_to (less : α → α → Bool) (c : α) (l : List α) : List α :=
  l.filter fun x => decide (Same less c x)

theorem equal_to_append (less : α → α → Bool) (c : α) (as bs : List α) :
    equal_to less c (as ++ bs) = equal_to less c as ++ equal_to less c bs :=
  List.filter_append as bs

/-- What comes after an element that is greater than `b` is not equal to `b`. -/
theorem equal_to_eq_nil {b c : α} (h : StrictWeakOrder less) (hsorted : SortedBy less (a :: as))
    (hlt : less b a = true) (hc : Same less c b) : equal_to less c (a :: as) = [] := by
  obtain ⟨hle, -⟩ := List.pairwise_cons.1 hsorted
  refine List.filter_eq_nil_iff.2 fun x hx hsame => ?_
  have hcx : Same less c x := of_decide_eq_true hsame
  have hbx : less b x = true := by
    rcases List.mem_cons.1 hx with rfl | hx
    · exact hlt
    · exact h.lt_of_lt_of_not_lt hlt (hle x hx)
  have hnot := (h.same_trans (StrictWeakOrder.same_symm hc) hcx).1
  rw [hbx] at hnot
  cases hnot

theorem equal_to_merge_loop (h : StrictWeakOrder less) (c : α) (as : List α) : ∀ bs,
    SortedBy less as →
      equal_to less c (merge_loop less as bs) = equal_to less c as ++ equal_to less c bs := by
  induction as with
  | nil =>
      intro bs _
      rw [merge_loop]
      rfl
  | cons a as ihas =>
      intro bs has
      induction bs with
      | nil => rw [merge_loop_eq, List.merge_right, ← equal_to_append, List.append_nil]
      | cons b bs ihbs =>
          rw [merge_loop]
          cases hlt : less b a with
          | false =>
              rw [if_pos (by rfl), ← List.singleton_append, equal_to_append,
                ihas _ (List.pairwise_cons.1 has).2, ← List.append_assoc, ← equal_to_append]
              rfl
          | true =>
              -- `b` overtakes the rest of its left neighbour, where nothing is equal to it
              rw [if_neg (by simp), ← List.singleton_append, equal_to_append, ihbs,
                ← @List.singleton_append _ b bs, equal_to_append]
              by_cases hc : Same less c b
              · rw [equal_to_eq_nil h has hlt hc]
                rfl
              · have hnone : equal_to less c [b] = [] := by
                  rw [equal_to, List.filter_cons_of_neg (by simpa using hc), List.filter_nil]
                rw [hnone]
                rfl

theorem equal_to_sort_pass (h : StrictWeakOrder less) (c : α) (l : List α) : ∀ n l',
    sort_pass less l = some (n, l') → equal_to less c l' = equal_to less c l := by
  refine sort_pass_induction (motive := fun l _ l' => equal_to less c l' = equal_to less c l) rfl
    (fun _ _ _ => rfl) ?_ l
  intro a l b l₁ merged n rest hrest hmerge ih
  have hfirst := find_end_of_run_append less a l
  have hsecond := find_end_of_run_append less b l₁
  obtain ⟨has, -, rfl⟩ := sorted_of_inplace_merge hmerge
  rw [is_sorted_iff h] at has
  rw [hrest] at hfirst
  rw [equal_to_append, equal_to_merge_loop h c _ _ has, ih, List.append_assoc, ← equal_to_append,
    hsecond, ← equal_to_append, hfirst]

theorem equal_to_list_sort (h : StrictWeakOrder less) (c : α) (passes : Nat) : ∀ l l',
    list_sort less passes l = some l' → equal_to less c l' = equal_to less c l := by
  induction passes with
  | zero =>
      intro l l' hsort
      cases hsort
  | succ passes ih =>
      intro l l' hsort
      obtain ⟨⟨n, l₁⟩, hpass, hsort⟩ := Option.bind_eq_some_iff.1 hsort
      have hkeep := equal_to_sort_pass h c l n l₁ hpass
      change (if n > 1 then list_sort less passes l₁ else _) = some l' at hsort
      by_cases hn : n > 1
      · rw [if_pos hn] at hsort
        exact (ih l₁ l' hsort).trans hkeep
      · rw [if_neg hn] at hsort
        obtain ⟨_, -, hsort⟩ := Option.bind_eq_some_iff.1 hsort
        obtain rfl := Option.some.inj hsort
        exact hkeep

end Stability

/-- `list_sort` returns, with no assertion failed.  The list has the same elements in order, those
that are equal in the order that they were in, and is linked as it should be. -/
theorem list_sort_sorts {less : Nat → Nat → Bool} (hless : StrictWeakOrder less) {s : Links Nat}
    {list : ListHeader} {xs : List Nat} (h : IsList s list xs) :
    ∃ s' xs', (∀ fuel, 2 * xs.length + 2 < fuel → Links.list_sort list less fuel s = some s') ∧
      IsList s' list xs' ∧ xs'.Perm xs ∧ SortedBy less xs' ∧
      (∀ c, equal_to less c xs' = equal_to less c xs) ∧ Links.SameOff (list.nodes xs) s s' := by
  have hruns := run_cnt_le_length less xs
  obtain ⟨xs', hsort, hperm, hsorted⟩ := list_sort_spec hless xs (Nat.lt_succ_of_le hruns)
  obtain ⟨s', hloop, hlist, hsorted', -, hsame⟩ :=
    Links.passes_from_spec hless (xs.length + 1) xs s xs' h hsort
  refine ⟨s', xs', fun fuel hfuel => ?_, hlist, hperm, hsorted,
    fun c => equal_to_list_sort hless c _ xs xs' hsort, hsame⟩
  have hhead : list.head ≠ NULL := h.not_null _ List.mem_cons_self
  have hall : IsList s' list ([] ++ (xs' ++ [])) := by rwa [List.append_nil]
  have hcheck := Links.is_sorted_spec less hall fuel (by rw [hperm.length_eq]; omega)
  rw [List.append_nil] at hcheck
  -- the last `ASSERT` of `list_sort`
  have hend : Links.is_sorted less s' fuel (list.first xs') list.tail = some true := by
    rw [← hsorted']
    exact hcheck
  rw [Links.list_sort, ASSERT_pos hhead]
  change (Links.passes_from list less fuel s).bind _ = _
  rw [hloop fuel (by omega), Option.bind_some, Links.list_begin_eq hlist]
  change (Links.is_sorted less s' fuel (list.first xs') list.tail).bind _ = _
  rw [hend]
  rfl

/-- A list of three elements sorted by their addresses. -/
theorem list_sort_sorts_three : ∃ s' xs',
    Links.list_sort ⟨1, 2⟩ (fun a b => decide (a < b)) 9 three_links = some s' ∧
      IsList s' ⟨1, 2⟩ xs' ∧ xs'.Perm [5, 3, 4] := by
  obtain ⟨s', xs', hsort, hlist, hperm, -⟩ := list_sort_sorts address_order three_links_list
  exact ⟨s', xs', hsort 9 (Nat.lt_succ_self 8), hlist, hperm⟩

end Berk162
