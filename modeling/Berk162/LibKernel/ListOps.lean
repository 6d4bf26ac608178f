import Berk162.LibKernel.List
import Berk162.LibKernel.ListSort

/-!
# ListOps — the list operations that compare elements

`list_insert_ordered`, `list_unique`, `list_max` and `list_min` of `lib/kernel/list.c`, and all that
the operations on lists do to the sequences of their elements.
-/

namespace Berk162

namespace Links

variable (list : ListHeader) (less : Nat → Nat → Bool)

/-- The loop of `list_insert_ordered`, from `e` on. -/
def ordered_from (s : Links Nat) (elem : Nat) : Nat → Nat → Option Nat
  | 0, _ => none
  | fuel + 1, e => do
      if e = list.tail then return e
      else if less elem e then return e
      else ordered_from s elem fuel (← s.list_next e)

def list_insert_ordered (fuel : Nat) (s : Links Nat) (elem : Nat) : Option (Links Nat) := do
  ASSERT (elem ≠ NULL)
  let e ← ordered_from list less s elem fuel (← s.list_begin list)
  s.list_insert e elem

/-- `list_push_back`, unless `duplicates` is a null pointer. -/
def push_duplicate (s : Links Nat) (duplicates : Option ListHeader) (elem : Nat) :
    Option (Links Nat) :=
  match duplicates with
  | none => some s
  | some duplicates => s.list_push_back duplicates elem

/-- The loop of `list_unique`, from `elem` on. -/
def unique_from (duplicates : Option ListHeader) : Nat → Links Nat → Nat → Option (Links Nat)
  | 0, _, _ => none
  | fuel + 1, s, elem => do
      let next ← s.list_next elem
      if next = list.tail then
        return s
      else if !less elem next && !less next elem then
        let (_, s) ← s.list_remove next
        let s ← s.push_duplicate duplicates next
        unique_from duplicates fuel s elem
      else unique_from duplicates fuel s next

def list_unique (fuel : Nat) (s : Links Nat) (duplicates : Option ListHeader) :
    Option (Links Nat) := do
  if ← s.list_empty list then
    return s
  else unique_from list less duplicates fuel s (← s.list_begin list)

/-- The loop of `list_max` and of `list_min`: from `e` on, `best` is replaced by what is better. -/
def extreme_from (better : Nat → Nat → Bool) (s : Links Nat) : Nat → Nat → Nat → Option Nat
  | 0, _, _ => none
  | fuel + 1, best, e => do
      if e = list.tail then return best
      else extreme_from better s fuel (if better e best then e else best) (← s.list_next e)

def list_max (fuel : Nat) (s : Links Nat) : Option Nat := do
  let max ← s.list_begin list
  if max ≠ list.tail then
    extreme_from list (fun e max => less max e) s fuel max (← s.list_next max)
  else return max

def list_min (fuel : Nat) (s : Links Nat) : Option Nat := do
  let min ← s.list_begin list
  if min ≠ list.tail then
    extreme_from list (fun e min => less e min) s fuel min (← s.list_next min)
  else return min

end Links

/-! ## Sequences -/

variable {α : Type} {less : α → α → Bool}

/-- Neither is less than the other. -/
def Same (less : α → α → Bool) (a b : α) : Prop := less a b = false ∧ less b a = false

namespace StrictWeakOrder

theorem same_symm {a b : α} (hab : Same less a b) : Same less b a := ⟨hab.2, hab.1⟩

theorem same_trans {a b c : α} (h : StrictWeakOrder less) (hab : Same less a b)
    (hbc : Same less b c) : Same less a c :=
  ⟨h.neg_trans a b c hab.1 hbc.1, h.neg_trans c b a hbc.2 hab.2⟩

theorem flip (h : StrictWeakOrder less) : StrictWeakOrder fun a b => less b a where
  asymm a b hab := h.asymm b a hab
  neg_trans a b c hab hbc := h.neg_trans c b a hbc hab

/-- What is less than an element is less than those that are not less than it. -/
theorem lt_of_lt_of_not_lt {a b c : α} (h : StrictWeakOrder less) (hab : less a b = true)
    (hcb : less c b = false) : less a c = true := by
  by_contra hac
  rw [Bool.not_eq_true] at hac
  rw [h.neg_trans a c b hac hcb] at hab
  cases hab

end StrictWeakOrder

/-- The runs of adjacent equal elements in `xs`. -/
structure Runs (less : α → α → Bool) (xs : List α) (runs : List (List α)) : Prop where
  flatten : runs.flatten = xs
  ne_nil : ∀ r ∈ runs, r ≠ []
  same : ∀ r ∈ runs, r.Pairwise (Same less)
  apart : runs.IsChain fun r r' => ∀ a ∈ r, ∀ b ∈ r', ¬ Same less a b

/-- `kept` are the first elements of the runs in `xs`, and `dups` the others. -/
def FirstOfRuns (less : α → α → Bool) (xs kept dups : List α) : Prop :=
  ∃ runs, Runs less xs runs ∧ kept = runs.filterMap List.head? ∧ dups = runs.flatMap List.tail

/-- What `list_unique` keeps of `elem` and the elements `qs` behind it, and what it removes. -/
def keep_first (less : α → α → Bool) (elem : α) : List α → List α × List α
  | [] => ([elem], [])
  | next :: qs =>
      if !less elem next && !less next elem then
        ((keep_first less elem qs).1, next :: (keep_first less elem qs).2)
      else (elem :: (keep_first less next qs).1, (keep_first less next qs).2)

theorem same_iff {a b : α} : (!less a b && !less b a) = true ↔ Same less a b := by
  rw [Bool.and_eq_true, Bool.not_eq_true', Bool.not_eq_true', Same]

section Runs

variable {elem next : α} {qs r : List α} {rest : List (List α)}

theorem runs_singleton (less : α → α → Bool) (elem : α) : Runs less [elem] [[elem]] where
  flatten := rfl
  ne_nil r' hr' := by
    obtain rfl := List.mem_singleton.1 hr'
    exact List.cons_ne_nil elem []
  same r' hr' := by
    obtain rfl := List.mem_singleton.1 hr'
    exact List.pairwise_singleton _ elem
  apart := List.isChain_singleton _

/-- An equal element comes into the first run. -/
theorem Runs.insert_same (hr : Runs less (elem :: qs) ((elem :: r) :: rest))
    (h : StrictWeakOrder less) (hsame : Same less elem next) :
    Runs less (elem :: next :: qs) ((elem :: next :: r) :: rest) where
  flatten := by
    have hqs := List.tail_eq_of_cons_eq hr.flatten
    rw [List.flatten_cons, List.cons_append, List.cons_append]
    exact congrArg (fun l => elem :: next :: l) hqs
  ne_nil r' hr' := by
    rcases List.mem_cons.1 hr' with rfl | hr'
    · exact List.cons_ne_nil _ _
    · exact hr.ne_nil r' (List.mem_cons_of_mem _ hr')
  same r' hr' := by
    rcases List.mem_cons.1 hr' with rfl | hr'
    · obtain ⟨helem, hpair⟩ := List.pairwise_cons.1 (hr.same _ List.mem_cons_self)
      refine List.pairwise_cons.2 ⟨fun a ha => ?_, List.pairwise_cons.2 ⟨fun a ha => ?_, hpair⟩⟩
      · rcases List.mem_cons.1 ha with rfl | ha
        · exact hsame
        · exact helem a ha
      · exact h.same_trans (StrictWeakOrder.same_symm hsame) (helem a ha)
    · exact hr.same r' (List.mem_cons_of_mem _ hr')
  apart := by
    cases rest with
    | nil => exact List.isChain_singleton _
    | cons r' rest =>
        -- what is not equal to `elem` is not equal to `next` either
        obtain ⟨hfirst, hrest⟩ := List.isChain_cons_cons.1 hr.apart
        refine List.isChain_cons_cons.2 ⟨fun a ha b hb hab => ?_, hrest⟩
        rcases List.mem_cons.1 ha with rfl | ha
        · exact hfirst a List.mem_cons_self b hb hab
        · rcases List.mem_cons.1 ha with rfl | ha
          · exact hfirst elem List.mem_cons_self b hb (h.same_trans hsame hab)
          · exact hfirst a (List.mem_cons_of_mem _ ha) b hb hab

/-- An element that is not equal to the next one is a run of its own. -/
theorem Runs.cons_other (hr : Runs less (next :: qs) ((next :: r) :: rest))
    (h : StrictWeakOrder less) (hne : ¬ Same less elem next) :
    Runs less (elem :: next :: qs) ([elem] :: (next :: r) :: rest) where
  flatten := by
    rw [List.flatten_cons, hr.flatten]
    rfl
  ne_nil r' hr' := by
    rcases List.mem_cons.1 hr' with rfl | hr'
    · exact List.cons_ne_nil elem []
    · exact hr.ne_nil r' hr'
  same r' hr' := by
    rcases List.mem_cons.1 hr' with rfl | hr'
    · exact List.pairwise_singleton _ elem
    · exact hr.same r' hr'
  apart := by
    refine List.isChain_cons_cons.2 ⟨fun a ha b hb hab => ?_, hr.apart⟩
    obtain rfl := List.mem_singleton.1 ha
    obtain ⟨hnext, -⟩ := List.pairwise_cons.1 (hr.same _ List.mem_cons_self)
    rcases List.mem_cons.1 hb with rfl | hb
    · exact hne hab
    · exact hne (h.same_trans hab (StrictWeakOrder.same_symm (hnext b hb)))

end Runs

theorem keep_first_runs (h : StrictWeakOrder less) (elem : α) (qs : List α) :
    ∃ r rest, Runs less (elem :: qs) ((elem :: r) :: rest) ∧
      (keep_first less elem qs).1 = elem :: rest.filterMap List.head? ∧
      (keep_first less elem qs).2 = r ++ rest.flatMap List.tail := by
  induction qs generalizing elem with
  | nil => exact ⟨[], [], runs_singleton less elem, rfl, rfl⟩
  | cons next qs ih =>
      by_cases hsame : Same less elem next
      · -- `next` is removed, and `elem` is compared with what comes behind it
        obtain ⟨r, rest, hruns, hkept, hdups⟩ := ih elem
        refine ⟨next :: r, rest, hruns.insert_same h hsame, ?_, ?_⟩
        · rw [keep_first, if_pos (same_iff.2 hsame), hkept]
        · rw [keep_first, if_pos (same_iff.2 hsame), hdups]
          rfl
      · -- `next` is the first of its run
        obtain ⟨r, rest, hruns, hkept, hdups⟩ := ih next
        refine ⟨[], (next :: r) :: rest, hruns.cons_other h hsame, ?_, ?_⟩
        · rw [keep_first, if_neg fun heq => hsame (same_iff.1 heq), hkept]
          rfl
        · rw [keep_first, if_neg fun heq => hsame (same_iff.1 heq), hdups]
          rfl

theorem keep_first_firstOfRuns (h : StrictWeakOrder less) (elem : α) (qs : List α) :
    FirstOfRuns less (elem :: qs) (keep_first less elem qs).1 (keep_first less elem qs).2 := by
  obtain ⟨r, rest, hruns, hkept, hdups⟩ := keep_first_runs h elem qs
  exact ⟨(elem :: r) :: rest, hruns, hkept, hdups⟩

/-- Insertion in order keeps a sequence in order. -/
theorem sortedBy_orderedInsert (h : StrictWeakOrder less) (elem : α) {xs : List α}
    (hxs : SortedBy less xs) :
    SortedBy less (xs.orderedInsert (fun a b => less a b = true) elem) := by
  induction xs with
  | nil => exact List.pairwise_singleton _ elem
  | cons x xs ih =>
      obtain ⟨hx, hrest⟩ := List.pairwise_cons.1 hxs
      rw [List.orderedInsert_cons]
      split
      · next hlt =>
        refine List.pairwise_cons.2 ⟨fun b hb => ?_, hxs⟩
        rcases List.mem_cons.1 hb with rfl | hb
        · exact h.asymm elem b hlt
        · exact h.asymm elem b (h.lt_of_lt_of_not_lt hlt (hx b hb))
      · next hle =>
        refine List.pairwise_cons.2 ⟨fun b hb => ?_, ih hrest⟩
        rcases (List.mem_orderedInsert _).1 hb with rfl | hb
        · exact Bool.not_eq_true _ ▸ hle
        · exact hx b hb

/-- `e` is better than all elements of `xs` in front of it, and none behind it is better. -/
def EarliestBest (better : α → α → Bool) (xs : List α) (e : α) : Prop :=
  ∃ p q, xs = p ++ e :: q ∧ (∀ x ∈ p, better e x = true) ∧ ∀ x ∈ q, better x e = false

/-- The best of one more element. -/
theorem EarliestBest.step {xs : List α} {best : α} (h : StrictWeakOrder less)
    (hbest : EarliestBest less xs best) (e : α) :
    EarliestBest less (xs ++ [e]) (if less e best then e else best) := by
  obtain ⟨p, q, rfl, hp, hq⟩ := hbest
  split
  · next hlt =>
    -- better than the best, so better than all
    refine ⟨p ++ best :: q, [], rfl, fun x hx => ?_, fun x hx => absurd hx List.not_mem_nil⟩
    rcases List.mem_append.1 hx with hx | hx
    · exact h.lt_of_lt_of_not_lt hlt (h.asymm best x (hp x hx))
    · rcases List.mem_cons.1 hx with rfl | hx
      · exact hlt
      · exact h.lt_of_lt_of_not_lt hlt (hq x hx)
  · next hle =>
    -- the earlier one stays, also if `e` is as good
    refine ⟨p, q ++ [e], by rw [List.append_assoc]; rfl, hp, fun x hx => ?_⟩
    rcases List.mem_append.1 hx with hx | hx
    · exact hq x hx
    · obtain rfl := List.mem_singleton.1 hx
      exact Bool.not_eq_true _ ▸ hle

/-! ## The operations -/

namespace Links

variable {s s' : Links Nat} {list : ListHeader} {xs ys : List Nat} {elem e : Nat}
  {less : Nat → Nat → Bool}

/-- The node after an element. -/
theorem list_next_elem (h : IsList s list (xs ++ e :: ys)) :
    s.list_next e = some (list.first ys) := by
  rw [List.append_cons] at h
  have hnext := h.list_next
  rwa [ListHeader.last_concat] at hnext

theorem elem_ne_tail (h : IsList s list (xs ++ e :: ys)) : e ≠ list.tail := fun heq =>
  tail_notMem h (heq ▸ List.mem_append_right xs List.mem_cons_self)

theorem ordered_from_spec (less : Nat → Nat → Bool) (elem : Nat) (qs : List Nat) :
    ∀ ps, IsList s list (ps ++ qs) → ∀ fuel, qs.length < fuel →
      ordered_from list less s elem fuel (list.first qs) =
        some (list.first (qs.dropWhile fun b => decide ¬ less elem b = true)) := by
  induction qs with
  | nil =>
      intro ps _ fuel hfuel
      obtain ⟨fuel, rfl⟩ := Nat.exists_eq_add_of_le' hfuel
      exact if_pos rfl
  | cons q qs ih =>
      intro ps h fuel hfuel
      obtain ⟨fuel, rfl⟩ := Nat.exists_eq_add_of_le' (show 1 ≤ fuel by omega)
      refine (if_neg (elem_ne_tail h)).trans ?_
      by_cases hlt : less elem q = true
      · rw [List.dropWhile_cons_of_neg (by simpa using hlt)]
        exact if_pos hlt
      · rw [List.dropWhile_cons_of_pos (by simpa using hlt), ListHeader.first_cons,
          list_next_elem h]
        refine (if_neg hlt).trans ?_
        rw [List.append_cons] at h
        exact ih _ h fuel (Nat.lt_of_succ_lt_succ hfuel)

theorem list_insert_ordered_spec (h : IsList s list xs) (he : elem ∉ list.nodes xs)
    (hnull : elem ≠ NULL) (less : Nat → Nat → Bool) :
    ∃ s', (∀ fuel, xs.length < fuel → s.list_insert_ordered list less fuel elem = some s') ∧
      IsList s' list (xs.orderedInsert (fun a b => less a b = true) elem) ∧
      SameOff (elem :: list.nodes xs) s s' := by
  -- the loop stops in front of the first element that `elem` is less than
  have hsplit : (xs.takeWhile fun b => decide ¬ less elem b = true) ++
      xs.dropWhile (fun b => decide ¬ less elem b = true) = xs :=
    List.takeWhile_append_dropWhile
  have hlist := h
  rw [← hsplit] at hlist he
  obtain ⟨s', hinsert, hnew, hsame⟩ := list_insert_spec hlist he hnull
  refine ⟨s', fun fuel hfuel => ?_, ?_, hsame.mono fun e he => ?_⟩
  · rw [list_insert_ordered, ASSERT_pos hnull, list_begin_eq h]
    change (ordered_from list less s elem fuel (list.first xs)).bind _ = _
    rw [ordered_from_spec less elem xs [] h fuel hfuel]
    exact hinsert
  · rwa [List.orderedInsert_eq_take_drop]
  · rcases (list.mem_nodes _ [elem] _ e).1 he with he | he
    · exact List.mem_singleton.1 he ▸ List.mem_cons_self
    · rw [hsplit] at he
      exact List.mem_cons_of_mem _ he

theorem extreme_from_spec {better : Nat → Nat → Bool} (hb : StrictWeakOrder better)
    (qs : List Nat) : ∀ ps best, IsList s list (ps ++ qs) → EarliestBest better ps best →
    ∃ e, (∀ fuel, qs.length < fuel →
      extreme_from list better s fuel best (list.first qs) = some e) ∧
        EarliestBest better (ps ++ qs) e := by
  induction qs with
  | nil =>
      intro ps best _ hbest
      refine ⟨best, fun fuel hfuel => ?_, by rwa [List.append_nil]⟩
      obtain ⟨fuel, rfl⟩ := Nat.exists_eq_add_of_le' hfuel
      exact if_pos rfl
  | cons q qs ih =>
      intro ps best h hbest
      have hnext := list_next_elem h
      have htail := elem_ne_tail h
      rw [List.append_cons] at h
      obtain ⟨e, hloop, hlast⟩ := ih _ _ h (hbest.step hb q)
      refine ⟨e, fun fuel hfuel => ?_, by rwa [List.append_cons]⟩
      obtain ⟨fuel, rfl⟩ := Nat.exists_eq_add_of_le' (show 1 ≤ fuel by omega)
      refine (if_neg htail).trans ?_
      rw [ListHeader.first_cons, hnext]
      exact hloop fuel (Nat.lt_of_succ_lt_succ hfuel)

/-- The best element of a list that is not empty, or the tail. -/
def Extreme (better : Nat → Nat → Bool) (list : ListHeader) (xs : List Nat) (e : Nat) : Prop :=
  if xs = [] then e = list.tail else EarliestBest better xs e

theorem earliestBest_singleton (better : Nat → Nat → Bool) (x : Nat) : EarliestBest better [x] x :=
  ⟨[], [], rfl, fun _ h => absurd h List.not_mem_nil, fun _ h => absurd h List.not_mem_nil⟩

/-- What `list_max` and `list_min` do. -/
theorem list_extreme_spec {better : Nat → Nat → Bool} (h : IsList s list xs)
    (hb : StrictWeakOrder better) :
    ∃ e, (∀ fuel, xs.length < fuel → ((s.list_begin list).bind fun best =>
        if best ≠ list.tail then
          (s.list_next best).bind fun e => extreme_from list better s fuel best e
        else some best) = some e) ∧ Extreme better list xs e := by
  cases xs with
  | nil =>
      refine ⟨list.tail, fun fuel _ => ?_, rfl⟩
      rw [list_begin_eq h, Option.bind_some]
      exact if_neg (not_not.2 rfl)
  | cons x xs =>
      have hlist : IsList s list ([] ++ x :: xs) := h
      obtain ⟨e, hloop, hbest⟩ := extreme_from_spec hb xs [x] x h (earliestBest_singleton better x)
      refine ⟨e, fun fuel hfuel => ?_, hbest⟩
      rw [list_begin_eq h, Option.bind_some, ListHeader.first_cons, if_pos (elem_ne_tail hlist),
        list_next_elem hlist]
      exact hloop fuel (Nat.lt_of_succ_lt hfuel)

theorem list_max_spec (h : IsList s list xs) (hless : StrictWeakOrder less) :
    ∃ e, (∀ fuel, xs.length < fuel → s.list_max list less fuel = some e) ∧
      Extreme (fun a b => less b a) list xs e :=
  list_extreme_spec h hless.flip

theorem list_min_spec (h : IsList s list xs) (hless : StrictWeakOrder less) :
    ∃ e, (∀ fuel, xs.length < fuel → s.list_min list less fuel = some e) ∧
      Extreme less list xs e :=
  list_extreme_spec h hless

/-! ### Removing duplicates -/

/-- The list of duplicates, if there is one, holds `ds`, and its nodes are its own. -/
def Duplicates (s : Links Nat) (list : ListHeader) (xs : List Nat) (duplicates : Option ListHeader)
    (ds : List Nat) : Prop :=
  ∀ d ∈ duplicates, IsList s d ds ∧ (list.nodes xs).Disjoint (d.nodes ds)

/-- The nodes of the list of duplicates. -/
def dup_nodes (duplicates : Option ListHeader) (ds : List Nat) : List Nat :=
  match duplicates with
  | none => []
  | some d => d.nodes ds

theorem mem_nodes_concat {ds : List Nat} (h : e ∈ list.nodes (ds ++ [elem])) :
    e = elem ∨ e ∈ list.nodes ds := by
  rcases (list.mem_nodes ds [elem] [] e).1 h with h | h
  · exact Or.inl (List.mem_singleton.1 h)
  · rw [List.append_nil] at h
    exact Or.inr h

theorem mem_dup_nodes_concat {duplicates : Option ListHeader} {ds : List Nat}
    (h : e ∈ dup_nodes duplicates (ds ++ [elem])) : e = elem ∨ e ∈ dup_nodes duplicates ds := by
  cases duplicates with
  | none => exact Or.inr h
  | some d => exact mem_nodes_concat h

/-- An element is moved to the list of duplicates. -/
theorem move_duplicate {duplicates : Option ListHeader} {ds : List Nat}
    (h : IsList s list (xs ++ elem :: ys))
    (hd : Duplicates s list (xs ++ elem :: ys) duplicates ds) :
    ∃ s₁ s', s.list_remove elem = some (list.first ys, s₁) ∧
      s₁.push_duplicate duplicates elem = some s' ∧ IsList s' list (xs ++ ys) ∧
      Duplicates s' list (xs ++ ys) duplicates (ds ++ [elem]) ∧
      SameOff (list.nodes (xs ++ elem :: ys) ++ dup_nodes duplicates ds) s s' := by
  obtain ⟨s₁, hremove, hlist, hsame⟩ := list_remove_spec h
  have hnodup := (list.nodes_perm xs [elem] ys).nodup_iff.1 h.nodup
  -- once it is removed, the element is in neither list
  obtain ⟨hoff, -⟩ := List.nodup_cons.1 hnodup
  have helem : elem ∈ list.nodes (xs ++ elem :: ys) :=
    (list.mem_nodes xs [elem] ys elem).2 (Or.inl (List.mem_singleton_self elem))
  have hsub : ∀ e ∈ list.nodes (xs ++ ys), e ∈ list.nodes (xs ++ elem :: ys) := fun e he =>
    (list.mem_nodes xs [elem] ys e).2 (Or.inr he)
  cases duplicates with
  | none =>
      refine ⟨s₁, s₁, hremove, rfl, hlist, fun d hd' => absurd hd' (Option.not_mem_none d), ?_⟩
      exact hsame.mono fun e he => List.mem_append_left _ he
  | some d =>
      obtain ⟨hdup, hdisj⟩ := hd d rfl
      have hdup₁ : IsList s₁ d ds := hdup.of_sameOff hsame fun e he hmem => hdisj hmem he
      obtain ⟨s', hpush, hdup', hsame'⟩ := list_push_back_spec hdup₁ (fun hmem => hdisj helem hmem)
        (h.not_null elem helem)
      refine ⟨s₁, s', hremove, hpush, hlist.of_sameOff hsame' fun e he hin => ?_,
        fun d' hd' => ?_, ?_⟩
      · rcases mem_nodes_concat hin with rfl | hin
        · exact hoff he
        · exact hdisj (hsub e he) hin
      · obtain rfl := Option.some.inj hd'
        refine ⟨hdup', fun e he hin => ?_⟩
        rcases mem_nodes_concat hin with rfl | hin
        · exact hoff he
        · exact hdisj (hsub e he) hin
      · refine (hsame.mono fun e he => List.mem_append_left _ he).trans
          (hsame'.mono fun e he => ?_)
        rcases mem_nodes_concat he with rfl | he
        · exact List.mem_append_left _ helem
        · exact List.mem_append_right _ he

/-- One pass of the loop. -/
theorem unique_from_succ (less : Nat → Nat → Bool) (duplicates : Option ListHeader) (fuel : Nat)
    (s : Links Nat) (elem : Nat) : unique_from list less duplicates (fuel + 1) s elem =
      (s.list_next elem).bind fun next =>
        if next = list.tail then some s
        else if !less elem next && !less next elem then
          (s.list_remove next).bind fun r =>
            (r.2.push_duplicate duplicates next).bind fun s =>
              unique_from list less duplicates fuel s elem
        else unique_from list less duplicates fuel s next :=
  rfl

theorem unique_from_spec (less : Nat → Nat → Bool) (duplicates : Option ListHeader)
    (qs : List Nat) : ∀ s ps elem ds, IsList s list (ps ++ elem :: qs) →
    Duplicates s list (ps ++ elem :: qs) duplicates ds →
    ∃ s', (∀ fuel, qs.length < fuel → unique_from list less duplicates fuel s elem = some s') ∧
      IsList s' list (ps ++ (keep_first less elem qs).1) ∧
      Duplicates s' list (ps ++ (keep_first less elem qs).1) duplicates
        (ds ++ (keep_first less elem qs).2) ∧
      SameOff (list.nodes (ps ++ elem :: qs) ++ dup_nodes duplicates ds) s s' := by
  induction qs with
  | nil =>
      intro s ps elem ds h hd
      refine ⟨s, fun fuel hfuel => ?_, h, by rwa [keep_first, List.append_nil], SameOff.refl _ _⟩
      obtain ⟨fuel, rfl⟩ := Nat.exists_eq_add_of_le' (show 1 ≤ fuel from hfuel)
      rw [unique_from_succ, list_next_elem h]
      exact if_pos rfl
  | cons next qs ih =>
      intro s ps elem ds h hd
      have hnext := list_next_elem h
      have h' := h
      rw [List.append_cons] at h'
      have htail := elem_ne_tail h'
      by_cases hsame : (!less elem next && !less next elem) = true
      · -- `elem` stays, and the list is shorter
        have hd' := hd
        rw [List.append_cons] at hd'
        obtain ⟨s₁, s₂, hremove, hpush, hlist, hdup, hoff⟩ := move_duplicate h' hd'
        rw [← List.append_cons] at hlist hdup hoff
        obtain ⟨s', hloop, hlist', hdup', hoff'⟩ := ih s₂ ps elem (ds ++ [next]) hlist hdup
        rw [keep_first, if_pos hsame]
        refine ⟨s', fun fuel hfuel => ?_, hlist', by rwa [List.append_assoc] at hdup', ?_⟩
        · obtain ⟨fuel, rfl⟩ := Nat.exists_eq_add_of_le' (show 1 ≤ fuel by omega)
          rw [unique_from_succ, hnext, Option.bind_some, ListHeader.first_cons, if_neg htail,
            if_pos hsame, hremove, Option.bind_some, hpush, Option.bind_some]
          exact hloop fuel (Nat.lt_of_succ_lt_succ hfuel)
        · refine hoff.trans (hoff'.mono fun e he => ?_)
          have hin : ∀ e, e = next ∨ e ∈ list.nodes (ps ++ elem :: qs) →
              e ∈ list.nodes (ps ++ elem :: next :: qs) := by
            intro e he
            rw [List.append_cons ps elem (next :: qs)]
            rw [List.append_cons ps elem qs] at he
            exact (list.mem_nodes _ [next] qs e).2 (he.imp List.mem_singleton.2 id)
          rcases List.mem_append.1 he with he | he
          · exact List.mem_append_left _ (hin e (Or.inr he))
          · rcases mem_dup_nodes_concat he with heq | he
            · exact List.mem_append_left _ (hin e (Or.inl heq))
            · exact List.mem_append_right _ he
      · -- the cursor goes on to `next`
        rw [keep_first, if_neg hsame, List.append_cons]
        rw [List.append_cons] at hd
        obtain ⟨s', hloop, hlist', hdup', hoff'⟩ := ih s (ps ++ [elem]) next ds h' hd
        refine ⟨s', fun fuel hfuel => ?_, hlist', hdup', by rwa [List.append_cons]⟩
        obtain ⟨fuel, rfl⟩ := Nat.exists_eq_add_of_le' (show 1 ≤ fuel by omega)
        rw [unique_from_succ, hnext, Option.bind_some, ListHeader.first_cons, if_neg htail,
          if_neg hsame]
        exact hloop fuel (Nat.lt_of_succ_lt_succ hfuel)

/-- What `list_unique` leaves of an empty list is nothing. -/
theorem firstOfRuns_nil (less : Nat → Nat → Bool) : FirstOfRuns less [] [] [] :=
  ⟨[], ⟨rfl, fun _ hr => absurd hr List.not_mem_nil, fun _ hr => absurd hr List.not_mem_nil,
    List.isChain_nil⟩, rfl, rfl⟩

theorem list_unique_spec {duplicates : Option ListHeader} {ds : List Nat} (h : IsList s list xs)
    (hd : Duplicates s list xs duplicates ds) (hless : StrictWeakOrder less) :
    ∃ s' kept dups, FirstOfRuns less xs kept dups ∧
      (∀ fuel, xs.length < fuel → s.list_unique list less fuel duplicates = some s') ∧
      IsList s' list kept ∧ Duplicates s' list kept duplicates (ds ++ dups) ∧
      SameOff (list.nodes xs ++ dup_nodes duplicates ds) s s' := by
  cases xs with
  | nil =>
      refine ⟨s, [], [], firstOfRuns_nil less, fun fuel _ => ?_, h, by rwa [List.append_nil],
        SameOff.refl _ _⟩
      rw [list_unique, list_empty_eq h]
      rfl
  | cons x xs =>
      have hlist : IsList s list ([] ++ x :: xs) := h
      obtain ⟨s', hloop, hlist', hdup', hoff⟩ :=
        unique_from_spec less duplicates xs s [] x ds hlist hd
      refine ⟨s', _, _, keep_first_firstOfRuns hless x xs, fun fuel hfuel => ?_, hlist', hdup',
        hoff⟩
      rw [list_unique, list_empty_eq h, decide_eq_false (List.cons_ne_nil x xs)]
      change (s.list_begin list).bind _ = _
      rw [list_begin_eq h]
      exact hloop fuel (Nat.lt_of_succ_lt hfuel)

end Links

/-- The operations do to well-formed lists what they say they do to the sequences of their elements,
and leave the links of all other nodes alone. -/
structure ListOpsRefine (less : Nat → Nat → Bool) : Prop where
  insert : ∀ s list xs ys elem, IsList s list (xs ++ ys) → elem ∉ list.nodes (xs ++ ys) →
    elem ≠ NULL → ∃ s', s.list_insert (list.first ys) elem = some s' ∧
      IsList s' list (xs ++ elem :: ys) ∧ Links.SameOff (list.nodes (xs ++ elem :: ys)) s s'
  /-- Elements of another list are put into the list. -/
  splice_other : ∀ s list other xs ys ps fs qs, IsList s list (xs ++ ys) →
    IsList s other (ps ++ (fs ++ qs)) →
    (list.nodes (xs ++ ys)).Disjoint (other.nodes (ps ++ (fs ++ qs))) →
    ∃ s', s.list_splice (list.first ys) (other.first (fs ++ qs)) (other.first qs) = some s' ∧
      IsList s' list (xs ++ (fs ++ ys)) ∧ IsList s' other (ps ++ qs) ∧
      Links.SameOff (list.nodes (xs ++ ys) ++ other.nodes (ps ++ (fs ++ qs))) s s'
  /-- Elements are put in front of others that come behind them. -/
  splice_forward : ∀ s list ps fs qs ys, IsList s list (ps ++ (fs ++ (qs ++ ys))) →
    ∃ s', s.list_splice (list.first ys) (list.first (fs ++ (qs ++ ys))) (list.first (qs ++ ys)) =
        some s' ∧ IsList s' list (ps ++ (qs ++ (fs ++ ys))) ∧
      Links.SameOff (list.nodes (ps ++ (fs ++ (qs ++ ys)))) s s'
  /-- Elements are put in front of others that come before them. -/
  splice_backward : ∀ s list xs qs fs ys, IsList s list (xs ++ (qs ++ (fs ++ ys))) → qs ≠ [] →
    ∃ s', s.list_splice (list.first (qs ++ (fs ++ ys))) (list.first (fs ++ ys)) (list.first ys) =
        some s' ∧ IsList s' list (xs ++ (fs ++ (qs ++ ys))) ∧
      Links.SameOff (list.nodes (xs ++ (qs ++ (fs ++ ys)))) s s'
  remove : ∀ s list xs elem ys, IsList s list (xs ++ elem :: ys) →
    ∃ s', s.list_remove elem = some (list.first ys, s') ∧ IsList s' list (xs ++ ys) ∧
      Links.SameOff (list.nodes (xs ++ elem :: ys)) s s'
  reverse : ∀ s list xs, IsList s list xs →
    ∃ s', (∀ fuel, xs.length < fuel → s.list_reverse list fuel = some s') ∧
      IsList s' list xs.reverse ∧ Links.SameOff (list.nodes xs) s s'
  insert_ordered : ∀ s list xs elem, IsList s list xs → SortedBy less xs →
    elem ∉ list.nodes xs → elem ≠ NULL →
    ∃ s', (∀ fuel, xs.length < fuel → s.list_insert_ordered list less fuel elem = some s') ∧
      IsList s' list (xs.orderedInsert (fun a b => less a b = true) elem) ∧
      SortedBy less (xs.orderedInsert (fun a b => less a b = true) elem) ∧
      Links.SameOff (elem :: list.nodes xs) s s'
  unique : ∀ s list xs duplicates ds, IsList s list xs → Links.Duplicates s list xs duplicates ds →
    ∃ s' kept dups, FirstOfRuns less xs kept dups ∧
      (∀ fuel, xs.length < fuel → s.list_unique list less fuel duplicates = some s') ∧
      IsList s' list kept ∧ Links.Duplicates s' list kept duplicates (ds ++ dups) ∧
      Links.SameOff (list.nodes xs ++ Links.dup_nodes duplicates ds) s s'
  max : ∀ s list xs, IsList s list xs →
    ∃ e, (∀ fuel, xs.length < fuel → s.list_max list less fuel = some e) ∧
      Links.Extreme (fun a b => less b a) list xs e
  min : ∀ s list xs, IsList s list xs →
    ∃ e, (∀ fuel, xs.length < fuel → s.list_min list less fuel = some e) ∧
      Links.Extreme less list xs e

theorem list_ops_refine {less : Nat → Nat → Bool} (hless : StrictWeakOrder less) :
    ListOpsRefine less where
  insert _ _ _ _ _ h he hnull := Links.list_insert_spec h he hnull
  splice_other _ _ _ _ _ _ _ _ h h' hdisj := Links.list_splice_other h h' hdisj
  splice_forward _ _ _ _ _ _ h := Links.list_splice_forward h
  splice_backward _ _ _ _ _ _ h hqs := Links.list_splice_backward h hqs
  remove _ _ _ _ _ h := Links.list_remove_spec h
  reverse _ _ _ h := Links.list_reverse_spec h
  insert_ordered _ _ _ elem h hsorted he hnull := by
    obtain ⟨s', hinsert, hlist, hsame⟩ := Links.list_insert_ordered_spec h he hnull less
    exact ⟨s', hinsert, hlist, sortedBy_orderedInsert hless elem hsorted, hsame⟩
  unique _ _ _ _ _ h hd := Links.list_unique_spec h hd hless
  max _ _ _ h := Links.list_max_spec h hless
  min _ _ _ h := Links.list_min_spec h hless

/-- A list at the address 1 with its tail at 2 and the elements 5, 3 and 4. -/
def three_links : Links Nat where
  next e := if e = 1 then 5 else if e = 5 then 3 else if e = 3 then 4 else if e = 4 then 2 else 0
  prev e := if e = 2 then 4 else if e = 4 then 3 else if e = 3 then 5 else if e = 5 then 1 else 0

theorem three_links_list : IsList three_links ⟨1, 2⟩ [5, 3, 4] where
  chain := List.isChain_cons_cons.2 ⟨⟨rfl, rfl⟩, List.isChain_cons_cons.2 ⟨⟨rfl, rfl⟩,
    List.isChain_cons_cons.2 ⟨⟨rfl, rfl⟩, List.isChain_cons_cons.2 ⟨⟨rfl, rfl⟩,
      List.isChain_singleton 2⟩⟩⟩⟩
  nodup := by decide
  not_null := by decide
  head_prev := rfl
  tail_next := rfl

/-- Addresses in order. -/
theorem address_order : StrictWeakOrder fun a b : Nat => decide (a < b) where
  asymm a b hab := by
    rw [decide_eq_true_iff] at hab
    exact decide_eq_false (Nat.lt_asymm hab)
  neg_trans a b c hab hbc := by
    rw [decide_eq_false_iff_not, Nat.not_lt] at *
    exact Nat.le_trans hbc hab

/-- A reversal, and the least element. -/
theorem list_ops_refine_three :
    (∃ s', three_links.list_reverse ⟨1, 2⟩ 4 = some s' ∧ IsList s' ⟨1, 2⟩ [4, 3, 5]) ∧
      ∃ e, three_links.list_min ⟨1, 2⟩ (fun a b => decide (a < b)) 4 = some e ∧
        EarliestBest (fun a b => decide (a < b)) [5, 3, 4] e := by
  constructor
  · obtain ⟨s', hreverse, hlist, -⟩ :=
      (list_ops_refine address_order).reverse _ _ _ three_links_list
    exact ⟨s', hreverse 4 (Nat.lt_succ_self 3), hlist⟩
  · obtain ⟨e, hmin, hbest⟩ := (list_ops_refine address_order).min _ _ _ three_links_list
    exact ⟨e, hmin 4 (Nat.lt_succ_self 3), hbest⟩

end Berk162
