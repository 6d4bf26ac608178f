import Berk162.Lib.Machine
import Mathlib.Data.List.Sort

/-!
# ListSort — `list_sort` of `list.c`

The functions move the elements of a linked list; here a list is the sequence of its elements and a
range of it a part of that sequence.  `list.c` of `hw-list` and of `lib/kernel` is the same.
-/

namespace Berk162

variable {α : Type}

/-- `is_sorted`. -/
def is_sorted (less : α → α → Bool) : List α → Bool
  | [] => true
  | [_] => true
  | a :: b :: l => !less b a && is_sorted less (b :: l)

/-- `find_end_of_run` from the element `a`, the elements `l` being those after it: the run and the
elements from its end on. -/
def find_end_of_run (less : α → α → Bool) (a : α) : List α → List α × List α
  | [] => ([a], [])
  | b :: l =>
      if less b a then ([a], b :: l)
      else
        let (run, rest) := find_end_of_run less b l
        (a :: run, rest)

/-- The loop of `inplace_merge`, on what is left of the two ranges.  An element of the second range
that is less than the first of the first range is spliced in front of it. -/
def merge_loop (less : α → α → Bool) : List α → List α → List α
  | [], bs => bs
  | as, [] => as
  | a :: as, b :: bs =>
      if !less b a then a :: merge_loop less as (b :: bs) else b :: merge_loop less (a :: as) bs

def inplace_merge (less : α → α → Bool) (as bs : List α) : Option (List α) := do
  ASSERT (is_sorted less as = true)
  ASSERT (is_sorted less bs = true)
  return merge_loop less as bs

theorem find_end_of_run_append (less : α → α → Bool) (a : α) (l : List α) :
    (find_end_of_run less a l).1 ++ (find_end_of_run less a l).2 = a :: l := by
  induction l generalizing a with
  | nil =>
      rfl
  | cons b l ih =>
      rw [find_end_of_run]
      split
      · rfl
      · exact congrArg (a :: ·) (ih b)

theorem find_end_of_run_length (less : α → α → Bool) (a : α) (l : List α) :
    (find_end_of_run less a l).2.length ≤ l.length := by
  induction l generalizing a with
  | nil =>
      exact le_refl 0
  | cons b l ih =>
      rw [find_end_of_run]
      split
      · exact le_refl _
      · exact le_trans (ih b) (Nat.le_succ _)

/-- One pass of `list_sort` over the list: `output_run_cnt` and the list after it. -/
def sort_pass (less : α → α → Bool) : List α → Option (Nat × List α)
  | [] => some (0, [])
  | a :: l =>
      match _h : (find_end_of_run less a l).2 with
      | [] => some (1, (find_end_of_run less a l).1)
      | b :: l' => do
          let second := find_end_of_run less b l'
          let merged ← inplace_merge less (find_end_of_run less a l).1 second.1
          let (output_run_cnt, rest) ← sort_pass less second.2
          return (output_run_cnt + 1, merged ++ rest)
termination_by l => l.length
decreasing_by
  have hfirst := find_end_of_run_length less a l
  have hsecond := find_end_of_run_length less b l'
  rw [_h, List.length_cons] at hfirst
  rw [List.length_cons]
  omega

/-- `list_sort`, of which `passes` bounds the passes. -/
def list_sort (less : α → α → Bool) : Nat → List α → Option (List α)
  | 0, _ => none
  | passes + 1, l => do
      let (output_run_cnt, l) ← sort_pass less l
      if output_run_cnt > 1 then list_sort less passes l
      else
        ASSERT (is_sorted less l = true)
        return l

/-! ## Orders -/

/-- `less` is a strict weak order. -/
structure StrictWeakOrder (less : α → α → Bool) : Prop where
  asymm : ∀ a b, less a b = true → less b a = false
  neg_trans : ∀ a b c, less a b = false → less b c = false → less a c = false

/-- No element comes before one that it is less than. -/
def SortedBy (less : α → α → Bool) (l : List α) : Prop := l.Pairwise fun a b => less b a = false

variable {less : α → α → Bool}

/-- Neighbours in order are enough for a list in order. -/
theorem is_sorted_iff (h : StrictWeakOrder less) (l : List α) :
    is_sorted less l = true ↔ SortedBy less l := by
  have hchain : is_sorted less l = true ↔ l.IsChain fun a b => less b a = false := by
    induction l with
    | nil =>
        simp [is_sorted]
    | cons a l ih =>
        cases l with
        | nil =>
            simp [is_sorted]
        | cons b l =>
            rw [is_sorted, Bool.and_eq_true, ih, List.isChain_cons_cons, Bool.not_eq_true']
  have htrans : IsTrans α fun a b => less b a = false := ⟨fun a b c hab hbc => h.neg_trans c b a hbc hab⟩
  rw [hchain, SortedBy, List.isChain_iff_pairwise]

theorem is_sorted_run (less : α → α → Bool) (a : α) (l : List α) :
    is_sorted less (find_end_of_run less a l).1 = true ∧
      (find_end_of_run less a l).1.head? = some a := by
  induction l generalizing a with
  | nil =>
      exact ⟨rfl, rfl⟩
  | cons b l ih =>
      rw [find_end_of_run]
      split
      · exact ⟨rfl, rfl⟩
      · rename_i hle
        obtain ⟨hsorted, hhead⟩ := ih b
        -- the run from `b` on begins with `b`
        obtain ⟨run, hrun⟩ : ∃ run, (find_end_of_run less b l).1 = b :: run :=
          List.head?_eq_some_iff.1 hhead
        refine ⟨?_, rfl⟩
        rw [hrun] at hsorted
        simp only [hrun, is_sorted, hsorted, hle, Bool.not_false, Bool.and_self]

theorem merge_loop_eq (less : α → α → Bool) (as bs : List α) :
    merge_loop less as bs = List.merge as bs fun a b => !less b a := by
  induction as generalizing bs with
  | nil =>
      rw [merge_loop, List.nil_merge]
  | cons a as ihas =>
      induction bs with
      | nil =>
          rw [merge_loop, List.merge_right]
          exact fun h => by cases h
      | cons b bs ihbs =>
          rw [merge_loop, List.cons_merge_cons, ihas, ihbs]

/-- Merging ranges in order gives all their elements, in order. -/
theorem inplace_merge_spec (h : StrictWeakOrder less) {as bs : List α}
    (has : is_sorted less as = true) (hbs : is_sorted less bs = true) :
    ∃ l, inplace_merge less as bs = some l ∧ l.Perm (as ++ bs) ∧ is_sorted less l = true := by
  refine ⟨merge_loop less as bs, ?_, ?_, ?_⟩
  · simp [inplace_merge, has, hbs]
  · rw [merge_loop_eq]
    exact List.merge_perm_append _
  · rw [is_sorted_iff h] at has hbs ⊢
    rw [merge_loop_eq]
    have hle : ∀ {l : List α}, SortedBy less l ↔ l.Pairwise fun a b => (!less b a) = true := by
      simp [SortedBy]
    rw [hle] at has hbs ⊢
    refine List.pairwise_merge ?_ ?_ as bs has hbs
    · intro a b c hab hbc
      rw [Bool.not_eq_true'] at hab hbc ⊢
      exact h.neg_trans c b a hbc hab
    · intro a b
      cases hba : less b a with
      | false =>
          rfl
      | true =>
          rw [h.asymm b a hba]
          rfl

/-! ## Passes -/

/-- The number of runs in a list. -/
def run_cnt (less : α → α → Bool) : List α → Nat
  | [] => 0
  | [_] => 1
  | a :: b :: l => (if less b a then 1 else 0) + run_cnt less (b :: l)

theorem run_cnt_cons_pos (less : α → α → Bool) (a : α) (l : List α) : 0 < run_cnt less (a :: l) := by
  induction l generalizing a with
  | nil =>
      exact Nat.one_pos
  | cons b l ih =>
      exact Nat.lt_of_lt_of_le (ih b) (Nat.le_add_left _ _)

/-- The first run is one of them. -/
theorem run_cnt_cons (less : α → α → Bool) (a : α) (l : List α) :
    run_cnt less (a :: l) = 1 + run_cnt less (find_end_of_run less a l).2 := by
  induction l generalizing a with
  | nil =>
      rfl
  | cons b l ih =>
      rw [run_cnt, find_end_of_run]
      split
      · rfl
      · rw [Nat.zero_add]
        exact ih b

theorem run_cnt_sorted {l : List α} (h : is_sorted less l = true) : run_cnt less l ≤ 1 := by
  induction l with
  | nil =>
      exact Nat.zero_le 1
  | cons a l ih =>
      cases l with
      | nil =>
          exact le_refl 1
      | cons b l =>
          rw [is_sorted, Bool.and_eq_true, Bool.not_eq_true'] at h
          rw [run_cnt, h.1, if_neg Bool.false_ne_true, Nat.zero_add]
          exact ih h.2

theorem sorted_of_run_cnt {l : List α} (h : run_cnt less l ≤ 1) : is_sorted less l = true := by
  induction l with
  | nil =>
      rfl
  | cons a l ih =>
      cases l with
      | nil =>
          rfl
      | cons b l =>
          have hpos := run_cnt_cons_pos less b l
          rw [run_cnt] at h
          cases hba : less b a with
          | true =>
              rw [hba, if_pos rfl] at h
              omega
          | false =>
              rw [hba, if_neg Bool.false_ne_true, Nat.zero_add] at h
              rw [is_sorted, hba, ih h]
              rfl

theorem run_cnt_append (less : α → α → Bool) (l l' : List α) :
    run_cnt less (l ++ l') ≤ run_cnt less l + run_cnt less l' := by
  induction l with
  | nil =>
      exact Nat.le_add_left _ _
  | cons a l ih =>
      cases l with
      | nil =>
          cases l' with
          | nil =>
              exact le_refl 1
          | cons b l' =>
              simp only [List.singleton_append, run_cnt]
              split <;> omega
      | cons b l =>
          simp only [List.cons_append, run_cnt] at ih ⊢
          omega

/-- The list is one run. -/
theorem sort_pass_of_nil {a : α} {l : List α} (hrest : (find_end_of_run less a l).2 = []) :
    sort_pass less (a :: l) = some (1, (find_end_of_run less a l).1) := by
  rw [sort_pass]
  split
  · rfl
  · rename_i hcons
    rw [hrest] at hcons
    cases hcons

/-- The first two runs are merged. -/
theorem sort_pass_of_cons {a b : α} {l l' : List α}
    (hrest : (find_end_of_run less a l).2 = b :: l') :
    sort_pass less (a :: l) =
      (inplace_merge less (find_end_of_run less a l).1 (find_end_of_run less b l').1).bind
        fun merged => (sort_pass less (find_end_of_run less b l').2).bind
          fun r => some (r.1 + 1, merged ++ r.2) := by
  rw [sort_pass]
  split
  · rename_i hnil
    rw [hrest] at hnil
    cases hnil
  · rename_i b' l'' hcons
    rw [hrest] at hcons
    obtain ⟨rfl, rfl⟩ := List.cons.inj hcons
    rfl

/-- The rest of a pass goes over fewer elements. -/
theorem sort_pass_length {a b : α} {l l' : List α}
    (hrest : (find_end_of_run less a l).2 = b :: l') :
    (find_end_of_run less b l').2.length < (a :: l).length := by
  have hfirst := find_end_of_run_length less a l
  have hsecond := find_end_of_run_length less b l'
  rw [hrest, List.length_cons] at hfirst
  rw [List.length_cons]
  omega

/-- What holds of a list that is one run, and of two runs merged if it does of the rest, holds of
what a pass does. -/
theorem sort_pass_induction {motive : List α → Nat → List α → Prop} (nil : motive [] 0 [])
    (one : ∀ a l, (find_end_of_run less a l).2 = [] → motive (a :: l) 1 (a :: l))
    (merge : ∀ a l b l' merged n rest, (find_end_of_run less a l).2 = b :: l' →
      inplace_merge less (find_end_of_run less a l).1 (find_end_of_run less b l').1 = some merged →
      motive (find_end_of_run less b l').2 n rest → motive (a :: l) (n + 1) (merged ++ rest))
    (l : List α) : ∀ n l', sort_pass less l = some (n, l') → motive l n l' := by
  induction hlen : l.length using Nat.strongRecOn generalizing l with
  | _ m ih =>
      intro n l' hpass
      cases l with
      | nil =>
          rw [sort_pass] at hpass
          obtain ⟨rfl, rfl⟩ := Prod.mk.inj (Option.some.inj hpass)
          exact nil
      | cons a l =>
          have hfirst := find_end_of_run_append less a l
          cases hrest : (find_end_of_run less a l).2 with
          | nil =>
              rw [hrest, List.append_nil] at hfirst
              rw [sort_pass_of_nil hrest, hfirst] at hpass
              obtain ⟨rfl, rfl⟩ := Prod.mk.inj (Option.some.inj hpass)
              exact one a l hrest
          | cons b l₁ =>
              rw [sort_pass_of_cons hrest] at hpass
              obtain ⟨merged, hmerge, hpass⟩ := Option.bind_eq_some_iff.1 hpass
              obtain ⟨⟨n', rest⟩, hpass', hpass⟩ := Option.bind_eq_some_iff.1 hpass
              obtain ⟨rfl, rfl⟩ := Prod.mk.inj (Option.some.inj hpass)
              have hlt := sort_pass_length hrest
              exact merge a l b l₁ merged n' rest hrest hmerge
                (ih _ (hlen ▸ hlt) _ rfl n' rest hpass')

/-- A pass keeps the elements and halves the number of runs: what it counts is the number of merges,
and there are no more runs after it. -/
theorem sort_pass_spec (h : StrictWeakOrder less) (l : List α) :
    ∃ output_run_cnt l', sort_pass less l = some (output_run_cnt, l') ∧ l'.Perm l ∧
      run_cnt less l' ≤ output_run_cnt ∧ 2 * output_run_cnt ≤ run_cnt less l + 1 := by
  induction hlen : l.length using Nat.strongRecOn generalizing l with
  | _ n ih =>
      cases l with
      | nil =>
          exact ⟨0, [], by rw [sort_pass], List.Perm.refl [], le_refl 0, Nat.zero_le 1⟩
      | cons a l =>
          have hfirst := find_end_of_run_append less a l
          have hcnt := run_cnt_cons less a l
          have hlen₁ := find_end_of_run_length less a l
          obtain ⟨hsorted, -⟩ := is_sorted_run less a l
          cases hrest : (find_end_of_run less a l).2 with
          | nil =>
              rw [hrest, List.append_nil] at hfirst
              rw [hrest] at hcnt
              refine ⟨1, (find_end_of_run less a l).1, sort_pass_of_nil hrest, ?_,
                run_cnt_sorted hsorted, ?_⟩
              · rw [hfirst]
              · rw [hcnt, run_cnt]
          | cons b l' =>
              have hsecond := find_end_of_run_append less b l'
              have hcnt₂ := run_cnt_cons less b l'
              have hlen₂ := find_end_of_run_length less b l'
              obtain ⟨hsorted₂, -⟩ := is_sorted_run less b l'
              obtain ⟨merged, hmerge, hperm, hmerged⟩ := inplace_merge_spec h hsorted hsorted₂
              rw [hrest, List.length_cons] at hlen₁
              rw [List.length_cons] at hlen
              obtain ⟨m, rest, hpass, hperm', hle, htwo⟩ :=
                ih _ (by omega) (find_end_of_run less b l').2 rfl
              refine ⟨m + 1, merged ++ rest, ?_, ?_, ?_, ?_⟩
              · rw [sort_pass_of_cons hrest, hmerge, Option.bind_some, hpass, Option.bind_some]
              · -- the two runs merged, and behind them what the rest of the pass made of the rest
                calc
                  (merged ++ rest).Perm
                      (((find_end_of_run less a l).1 ++ (find_end_of_run less b l').1) ++
                        (find_end_of_run less b l').2) := hperm.append hperm'
                  _ = (find_end_of_run less a l).1 ++ (b :: l') := by
                      rw [List.append_assoc, hsecond]
                  _ = a :: l := by rw [← hrest, hfirst]
              · have happend := run_cnt_append less merged rest
                have hone := run_cnt_sorted hmerged
                omega
              · rw [hrest] at hcnt
                omega

/-- `list_sort` returns, with the elements in order and no assertion failed. -/
theorem list_sort_spec (h : StrictWeakOrder less) (l : List α) {passes : Nat}
    (hpasses : run_cnt less l < passes) :
    ∃ l', list_sort less passes l = some l' ∧ l'.Perm l ∧ SortedBy less l' := by
  induction passes generalizing l with
  | zero =>
      exact absurd hpasses (Nat.not_lt_zero _)
  | succ passes ih =>
      obtain ⟨n, l₁, hpass, hperm, hle, htwo⟩ := sort_pass_spec h l
      by_cases hn : n > 1
      · -- there are fewer runs than before
        obtain ⟨l₂, hsort, hperm₂, hsorted⟩ := ih l₁ (by omega)
        refine ⟨l₂, ?_, hperm₂.trans hperm, hsorted⟩
        rw [list_sort, hpass, Option.bind_eq_bind, Option.bind_some]
        simp only [if_pos hn, hsort]
      · have hsorted := sorted_of_run_cnt (le_trans hle (Nat.not_lt.1 hn))
        refine ⟨l₁, ?_, hperm, (is_sorted_iff h l₁).1 hsorted⟩
        rw [list_sort, hpass, Option.bind_eq_bind, Option.bind_some]
        simp [if_neg hn, hsorted]

theorem run_cnt_le_length (less : α → α → Bool) (l : List α) : run_cnt less l ≤ l.length := by
  induction l with
  | nil =>
      exact le_refl 0
  | cons a l ih =>
      cases l with
      | nil =>
          exact le_refl 1
      | cons b l =>
          rw [run_cnt, List.length_cons]
          split <;> omega

end Berk162
