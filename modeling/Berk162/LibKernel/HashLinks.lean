import Berk162.LibKernel.HashInv
import Berk162.LibKernel.ListOps
import Mathlib.Data.Fintype.Sum

/-!
# HashLinks — the buckets of a hash table as linked lists

In `Hash` a bucket is the sequence of its elements.  Here an element is the address of its
`struct list_elem`, a bucket is a list of `lib/kernel/list.c`, and the loops and updates of `hash.c`
are made of the functions on lists.  They do to lists without common nodes what `Hash` does to the
sequences.
-/

namespace Berk162

/-! ## Lists without common nodes -/

/-- Well-formed lists, no two of which have a node in common. -/
structure Family {ι : Type} (s : Links Nat) (lists : ι → ListHeader) (elems : ι → List Nat) :
    Prop where
  list : ∀ i, IsList s (lists i) (elems i)
  apart : ∀ i j, i ≠ j → ((lists i).nodes (elems i)).Disjoint ((lists j).nodes (elems j))

namespace Family

variable {ι : Type} [DecidableEq ι] {s s' : Links Nat} {lists : ι → ListHeader}
  {elems : ι → List Nat} {i : ι} {e : Nat}

omit [DecidableEq ι] in
theorem mem_nodes (list : ListHeader) {l : List Nat} (he : e ∈ l) : e ∈ list.nodes l :=
  List.mem_cons_of_mem _ (List.mem_append_left _ he)

/-- One of the lists changes, within nodes that are not those of other lists. -/
theorem change (h : Family s lists elems) {l nodes : List Nat} (hlist : IsList s' (lists i) l)
    (hsame : Links.SameOff nodes s s') (hsub : ∀ x ∈ (lists i).nodes l, x ∈ nodes)
    (hoff : ∀ j, j ≠ i → ((lists j).nodes (elems j)).Disjoint nodes) :
    Family s' lists (Function.update elems i l) := by
  have hother : ∀ j, j ≠ i → IsList s' (lists j) (elems j) := fun j hj =>
    (h.list j).of_sameOff hsame fun _ hx hmem => hoff j hj hx hmem
  have hnew : ∀ j, j ≠ i → ((lists j).nodes (elems j)).Disjoint ((lists i).nodes l) :=
    fun j hj _ hx hmem => hoff j hj hx (hsub _ hmem)
  constructor
  · intro j
    by_cases hj : j = i
    · subst hj
      rwa [Function.update_self]
    · rw [Function.update_of_ne hj]
      exact hother j hj
  · intro j k hjk
    by_cases hj : j = i
    · subst hj
      rw [Function.update_self, Function.update_of_ne (Ne.symm hjk)]
      exact (hnew k (Ne.symm hjk)).symm
    · rw [Function.update_of_ne hj]
      by_cases hk : k = i
      · subst hk
        rw [Function.update_self]
        exact hnew j hj
      · rw [Function.update_of_ne hk]
        exact h.apart j k hjk

/-- An element that is a node of no list is put in front of a list. -/
theorem push_front (h : Family s lists elems) (i : ι) (hnull : e ≠ NULL)
    (hfree : ∀ j, e ∉ (lists j).nodes (elems j)) :
    ∃ s', s.list_push_front (lists i) e = some s' ∧
      Family s' lists (Function.update elems i (e :: elems i)) := by
  have hi : IsList s (lists i) ([] ++ elems i) := h.list i
  rcases Links.list_insert_spec hi (hfree i) hnull with ⟨s', hinsert, hlist, hsame⟩
  refine ⟨s', ?_, h.change hlist hsame (fun _ hx => hx) fun j hj x hx hmem => ?_⟩
  · rw [Links.list_push_front, Links.list_begin_eq (h.list i), Option.bind_eq_bind,
      Option.bind_some]
    exact hinsert
  · rcases ((lists i).mem_nodes [] [e] (elems i) x).1 hmem with hnew | hold
    · exact hfree j (List.mem_singleton.1 hnew ▸ hx)
    · exact h.apart j i hj hx hold

/-- An element is taken out of its list, and is then a node of none. -/
theorem remove (h : Family s lists elems) (he : e ∈ elems i) :
    ∃ next s', s.list_remove e = some (next, s') ∧
      Family s' lists (Function.update elems i ((elems i).erase e)) ∧
      ∀ j, e ∉ (lists j).nodes (Function.update elems i ((elems i).erase e) j) := by
  rcases List.append_of_mem he with ⟨xs, ys, heq⟩
  have hi : IsList s (lists i) (xs ++ e :: ys) := heq ▸ h.list i
  have hnodup : (e :: (lists i).nodes (xs ++ ys)).Nodup :=
    ((lists i).nodes_perm xs [e] ys).nodup_iff.1 hi.nodup
  have hout : e ∉ (lists i).nodes (xs ++ ys) := (List.nodup_cons.1 hnodup).1
  have herase : (elems i).erase e = xs ++ ys := by
    have hxs : e ∉ xs := fun hmem => hout (mem_nodes _ (List.mem_append_left _ hmem))
    rw [heq, List.erase_append_right _ hxs, List.erase_cons_head]
  rcases Links.list_remove_spec hi with ⟨s', hremove, hlist, hsame⟩
  rw [herase]
  refine ⟨_, s', hremove, h.change hlist hsame (fun x hx => ?_) fun j hj => ?_, fun j => ?_⟩
  · exact ((lists i).mem_nodes xs [e] ys x).2 (Or.inr hx)
  · rw [← heq]
    exact h.apart j i hj
  · by_cases hj : j = i
    · subst hj
      rwa [Function.update_self]
    · rw [Function.update_of_ne hj]
      exact fun hmem => h.apart j i hj hmem (mem_nodes _ he)

end Family

/-! ## The loops of `hash.c` -/

namespace Links

/-- The loop of `find_elem`, from `i` on. -/
def find_from (h : Hash Nat) (bucket : ListHeader) (e : Nat) :
    Nat → Links Nat → Nat → Option (Option Nat)
  | 0, _, _ => none
  | fuel + 1, s, i => do
      if i = bucket.tail then
        return none
      else if h.same i e then
        return some i
      else
        find_from h bucket e fuel s (← s.list_next i)

def find_elem (h : Hash Nat) (fuel : Nat) (s : Links Nat) (bucket : ListHeader) (e : Nat) :
    Option (Option Nat) := do
  find_from h bucket e fuel s (← s.list_begin bucket)

/-- The inner loop of `rehash`, from `elem` on; `new_buckets` are the lists that the elements are
moved to. -/
def move_from (h : Hash Nat) (new_buckets : Nat → ListHeader) (old_bucket : ListHeader) :
    Nat → Links Nat → Nat → Option (Links Nat)
  | 0, _, _ => none
  | fuel + 1, s, elem => do
      if elem = old_bucket.tail then
        return s
      else
        let next ← s.list_next elem
        let (_, s) ← s.list_remove elem
        let s ← s.list_push_front (new_buckets (h.find_bucket elem)) elem
        move_from h new_buckets old_bucket fuel s next

/-- The loop of `rehash` over the old buckets. -/
def move_buckets (h : Hash Nat) (new_buckets old_buckets : Nat → ListHeader) (fuel : Nat)
    (old_bucket_cnt : Nat) (s : Links Nat) : Option (Links Nat) :=
  (List.range old_bucket_cnt).foldlM (fun s i => do
    move_from h new_buckets (old_buckets i) fuel s (← s.list_begin (old_buckets i))) s

variable {h : Hash Nat} {s : Links Nat} {bucket : ListHeader} {e : Nat}

theorem find_from_spec (ys : List Nat) : ∀ {xs : List Nat} {fuel : Nat},
    IsList s bucket (xs ++ ys) → ys.length < fuel →
      find_from h bucket e fuel s (bucket.first ys) = some (ys.find? fun hi => h.same hi e) := by
  induction ys with
  | nil =>
      intro xs fuel _ hfuel
      rcases Nat.exists_eq_add_of_lt hfuel with ⟨n, rfl⟩
      have hend : bucket.first [] = bucket.tail := rfl
      rw [find_from, if_pos hend]
      rfl
  | cons y ys ih =>
      intro xs fuel hlist hfuel
      rcases Nat.exists_eq_add_of_lt hfuel with ⟨n, rfl⟩
      rw [find_from, ListHeader.first_cons, if_neg (elem_ne_tail hlist)]
      cases hsame : h.same y e with
      | true =>
          simp only [if_true, List.find?_cons, hsame]
          rfl
      | false =>
          have hrest : IsList s bucket ((xs ++ [y]) ++ ys) := List.append_cons xs y ys ▸ hlist
          have hlen : ys.length < (y :: ys).length + n := by
            rw [List.length_cons]
            omega
          simp only [Bool.false_eq_true, if_false, list_next_elem hlist, Option.bind_eq_bind,
            Option.bind_some, List.find?_cons, hsame]
          exact ih hrest hlen

variable {ι : Type} [DecidableEq ι]

/-- The elements of `l` are put in front of the lists that `b` says, one after the other. -/
def pushed (b : Nat → ι) (l : List Nat) (elems : ι → List Nat) : ι → List Nat :=
  l.foldl (fun elems e => Function.update elems (b e) (e :: elems (b e))) elems

/-- The inner loop of `rehash` empties its bucket into the others. -/
theorem move_from_spec {lists : ι → ListHeader} {new_buckets : Nat → ListHeader} {b : Nat → ι}
    {a : ι} (hb : ∀ e, b e ≠ a) (hnew : ∀ e, new_buckets (h.find_bucket e) = lists (b e))
    (l : List Nat) : ∀ {s : Links Nat} {elems : ι → List Nat} {fuel : Nat},
      Family s lists elems → elems a = l → l.length < fuel →
        ∃ s', move_from h new_buckets (lists a) fuel s ((lists a).first l) = some s' ∧
          Family s' lists (pushed b l (Function.update elems a [])) := by
  induction l with
  | nil =>
      intro s elems fuel hfam ha hfuel
      rcases Nat.exists_eq_add_of_lt hfuel with ⟨n, rfl⟩
      have hend : (lists a).first [] = (lists a).tail := rfl
      refine ⟨s, by rw [move_from, if_pos hend]; rfl, ?_⟩
      rwa [pushed, List.foldl_nil, ← ha, Function.update_eq_self]
  | cons e l ih =>
      intro s elems fuel hfam ha hfuel
      rcases Nat.exists_eq_add_of_lt hfuel with ⟨n, rfl⟩
      have hlist : IsList s (lists a) ([] ++ e :: l) := by
        have hold := hfam.list a
        rwa [ha] at hold
      have hmem : e ∈ elems a := ha ▸ List.mem_cons_self
      have hnull : e ≠ NULL := (hfam.list a).not_null e (Family.mem_nodes _ hmem)
      rcases hfam.remove hmem with ⟨next, s₁, hremove, hfam₁, hfree⟩
      rw [ha, List.erase_cons_head] at hfam₁ hfree
      rcases hfam₁.push_front (b e) hnull hfree with ⟨s₂, hpush, hfam₂⟩
      rw [Function.update_of_ne (hb e)] at hfam₂
      have hrest : Function.update (Function.update elems a l) (b e) (e :: elems (b e)) a = l := by
        rw [Function.update_of_ne (hb e).symm, Function.update_self]
      have hlen : l.length < (e :: l).length + n := by
        rw [List.length_cons]
        omega
      rcases ih hfam₂ hrest hlen with ⟨s', hmove, hfam'⟩
      refine ⟨s', ?_, ?_⟩
      · rw [move_from, ListHeader.first_cons, if_neg (elem_ne_tail hlist), list_next_elem hlist]
        simp only [Option.bind_eq_bind, Option.bind_some, hremove, hnew, hpush]
        exact hmove
      · -- the old bucket is emptied before or after, as no element is put into it
        rw [Function.update_comm (hb e).symm, Function.update_idem] at hfam'
        rwa [pushed, List.foldl_cons, Function.update_of_ne (hb e),
          Function.update_comm (hb e).symm]

/-- What is put in front of the second of two families. -/
theorem pushed_inr {m n : Nat} {b : Nat → Fin n} {olds : Fin m → List Nat} (l : List Nat) :
    ∀ {h : Hash Nat}, (∀ e, (b e : Nat) = h.find_bucket e) →
      pushed (fun e => Sum.inr (b e)) l (Sum.elim olds fun j : Fin n => h.buckets j) =
        Sum.elim olds fun j : Fin n => (l.foldl Hash.move_elem h).buckets j := by
  induction l with
  | nil => exact fun _ => rfl
  | cons e l ih =>
      intro h hb
      have hbuckets : Function.update (fun j : Fin n => h.buckets j) (b e) (e :: h.buckets (b e)) =
          fun j : Fin n => (h.move_elem e).buckets j := by
        rw [Hash.move_elem, Hash.push_front, ← hb e]
        exact (Function.update_comp_eq_of_injective h.buckets Fin.val_injective _ _).symm
      have hmoved : ∀ e', (b e' : Nat) = (h.move_elem e).find_bucket e' := hb
      have hrest := ih hmoved
      rw [← hbuckets, ← Sum.update_elim_inr] at hrest
      exact hrest

theorem move_all_hash (l : List Nat) :
    ∀ h : Hash Nat, (∀ e, (l.foldl Hash.move_elem h).find_bucket e = h.find_bucket e) ∧
      (l.foldl Hash.move_elem h).bucket_cnt = h.bucket_cnt := by
  induction l with
  | nil => exact fun _ => ⟨fun _ => rfl, rfl⟩
  | cons e l ih => exact fun h => ih (h.move_elem e)

/-- The loops of `rehash` move the elements of the buckets in `l`; the other buckets stay. -/
theorem move_buckets_spec {m n fuel : Nat} {b : Nat → Fin n}
    {old_buckets new_buckets : Nat → ListHeader} {h₀ : Hash Nat}
    (hb : ∀ e, (b e : Nat) = h₀.find_bucket e) (l : List (Fin m)) :
    ∀ {s : Links Nat} {h : Hash Nat} {olds : Fin m → List Nat}, l.Nodup →
      (∀ e, (b e : Nat) = h.find_bucket e) → (∀ i, (olds i).length < fuel) →
        Family s (Sum.elim (fun i : Fin m => old_buckets i) fun j : Fin n => new_buckets j)
          (Sum.elim olds fun j : Fin n => h.buckets j) →
        ∃ s' olds', (l.map Fin.val).foldlM (fun s i => do
            move_from h₀ new_buckets (old_buckets i) fuel s (← s.list_begin (old_buckets i))) s =
            some s' ∧
          Family s' (Sum.elim (fun i : Fin m => old_buckets i) fun j : Fin n => new_buckets j)
            (Sum.elim olds' fun j : Fin n =>
              (l.foldl (fun h i => (olds i).foldl Hash.move_elem h) h).buckets j) := by
  induction l with
  | nil => exact fun _ _ _ hfam => ⟨_, _, rfl, hfam⟩
  | cons i l ih =>
      intro s h olds hnodup hbh hfuel hfam
      have hlist : IsList s (old_buckets i) (olds i) := hfam.list (Sum.inl i)
      have hne : ∀ e, (Sum.inr (b e) : Fin m ⊕ Fin n) ≠ Sum.inl i := fun _ => Sum.inr_ne_inl
      have hnew : ∀ e, new_buckets (h₀.find_bucket e) =
          Sum.elim (fun i : Fin m => old_buckets i) (fun j : Fin n => new_buckets j)
            (Sum.inr (b e)) := fun e => congrArg new_buckets (hb e).symm
      rcases move_from_spec hne hnew (olds i) hfam rfl (hfuel i) with ⟨s₁, hmove, hfam₁⟩
      rw [Sum.update_elim_inl, pushed_inr _ hbh] at hfam₁
      have hbh₁ : ∀ e, (b e : Nat) = ((olds i).foldl Hash.move_elem h).find_bucket e := fun e =>
        (hbh e).trans ((move_all_hash (olds i) h).1 e).symm
      have hfuel₁ : ∀ j, (Function.update olds i [] j).length < fuel := by
        intro j
        by_cases hj : j = i
        · subst hj
          rw [Function.update_self]
          exact Nat.zero_lt_of_lt (hfuel j)
        · rw [Function.update_of_ne hj]
          exact hfuel j
      rcases ih (List.nodup_cons.1 hnodup).2 hbh₁ hfuel₁ hfam₁ with ⟨s', olds', hmoves, hfam'⟩
      have hsame : ∀ h : Hash Nat, ∀ j ∈ l,
          (Function.update olds i [] j).foldl Hash.move_elem h =
            (olds j).foldl Hash.move_elem h := by
        intro h j hj
        have hji : j ≠ i := by
          rintro rfl
          exact (List.nodup_cons.1 hnodup).1 hj
        rw [Function.update_of_ne hji]
      rw [List.foldl_ext _ _ _ hsame] at hfam'
      have hbody : move_from h₀ new_buckets (old_buckets i) fuel s
          ((old_buckets i).first (olds i)) = some s₁ := hmove
      refine ⟨s', olds', ?_, hfam'⟩
      rw [List.map_cons, List.foldlM_cons, list_begin_eq hlist]
      simp only [Option.bind_eq_bind, Option.bind_some, hbody]
      exact hmoves

end Links

/-! ## The table -/

/-- The table with its elements moved to `n` new buckets. -/
def Hash.rehashed (h : Hash Nat) (n : Nat) : Hash Nat :=
  (List.range h.bucket_cnt).foldl (fun h₁ i => (h.buckets i).foldl Hash.move_elem h₁)
    { h with buckets := fun _ => [], bucket_cnt := n }

theorem Hash.rehashed_bucket_cnt (h : Hash Nat) (n : Nat) : (h.rehashed n).bucket_cnt = n := by
  rw [Hash.rehashed, ← List.foldl_flatMap]
  exact (Links.move_all_hash _ _).2

/-- The buckets of the table, in memory. -/
def Hash.Linked (h : Hash Nat) (s : Links Nat) (lists : Nat → ListHeader) : Prop :=
  Family s (fun i : Fin h.bucket_cnt => lists i) fun i => h.buckets i

variable {h : Hash Nat} {s : Links Nat} {lists new_buckets : Nat → ListHeader} {bucket e : Nat}

/-- A family of lists, less some of them. -/
theorem Family.comp {ι κ : Type} {lists : ι → ListHeader} {elems : ι → List Nat}
    (hfam : Family s lists elems) {f : κ → ι} (hf : Function.Injective f) :
    Family s (fun k => lists (f k)) fun k => elems (f k) :=
  ⟨fun k => hfam.list (f k), fun _ _ hjk => hfam.apart _ _ fun heq => hjk (hf heq)⟩

/-- The same lists with the same elements. -/
theorem Family.congr {ι : Type} {lists : ι → ListHeader} {elems elems' : ι → List Nat}
    (hfam : Family s lists elems) (h : ∀ i, elems' i = elems i) : Family s lists elems' :=
  (funext h : elems' = elems) ▸ hfam

namespace Hash.Linked

/-- A table with the same number of buckets. -/
theorem of_family {h' : Hash Nat} (hcnt : h'.bucket_cnt = h.bucket_cnt)
    (hfam : Family s (fun i : Fin h.bucket_cnt => lists i) fun i => h'.buckets i) :
    h'.Linked s lists := by
  have hinj : Function.Injective (Fin.cast hcnt) := Fin.cast_injective hcnt
  exact hfam.comp hinj

theorem find_elem (hl : h.Linked s lists) (hb : bucket < h.bucket_cnt) {fuel : Nat}
    (hfuel : (h.buckets bucket).length < fuel) :
    Links.find_elem h fuel s (lists bucket) e = some (h.find_elem bucket e) := by
  have hlist : IsList s (lists bucket) (h.buckets bucket) := hl.list ⟨bucket, hb⟩
  rw [Links.find_elem, Links.list_begin_eq hlist, Option.bind_eq_bind, Option.bind_some]
  have hall : IsList s (lists bucket) ([] ++ h.buckets bucket) := hlist
  exact Links.find_from_spec (h.buckets bucket) hall hfuel

theorem insert_elem (hl : h.Linked s lists) (hb : bucket < h.bucket_cnt) (hnull : e ≠ NULL)
    (hfree : ∀ i < h.bucket_cnt, e ∉ (lists i).nodes (h.buckets i)) :
    ∃ s', s.list_push_front (lists bucket) e = some s' ∧
      (h.insert_elem bucket e).Linked s' lists := by
  rcases hl.push_front ⟨bucket, hb⟩ hnull fun j => hfree j j.isLt with ⟨s', hpush, hfam⟩
  refine ⟨s', hpush, hfam.congr fun i => ?_⟩
  by_cases hi : i = ⟨bucket, hb⟩
  · subst hi
    rw [Function.update_self]
    exact Function.update_self ..
  · rw [Function.update_of_ne hi]
    exact Function.update_of_ne (fun heq => hi (Fin.ext heq)) ..

theorem remove_elem (hl : h.Linked s lists) (hb : bucket < h.bucket_cnt)
    (he : e ∈ h.buckets bucket) :
    ∃ next s', s.list_remove e = some (next, s') ∧ (h.remove_elem e).Linked s' lists := by
  rcases Family.remove hl (i := ⟨bucket, hb⟩) he with ⟨next, s', hremove, hfam, _⟩
  have hcnt : (h.remove_elem e).bucket_cnt = h.bucket_cnt := by
    rw [Hash.remove_elem]
  have herase : ∀ i, (h.remove_elem e).buckets i = (h.buckets i).erase e := fun i => by
    rw [Hash.remove_elem]
  refine ⟨next, s', hremove, of_family hcnt (hfam.congr fun i => ?_)⟩
  rw [herase]
  by_cases hi : i = ⟨bucket, hb⟩
  · subst hi
    rw [Function.update_self]
  · rw [Function.update_of_ne hi]
    -- the element is in one bucket only
    refine List.erase_of_not_mem fun hin => ?_
    exact hl.apart i ⟨bucket, hb⟩ hi (Family.mem_nodes _ hin) (Family.mem_nodes _ he)

/-- `hash_next` at an element: what follows it in its bucket, or the tail. -/
theorem list_next (hl : h.Linked s lists) (hb : bucket < h.bucket_cnt)
    (he : e ∈ h.buckets bucket) :
    s.list_next e = some ((lists bucket).first
      ((h.buckets bucket).dropWhile fun e' => e' != e).tail) := by
  have hlist : IsList s (lists bucket) (h.buckets bucket) := hl.list ⟨bucket, hb⟩
  rcases List.append_of_mem he with ⟨xs, ys, heq⟩
  rw [heq] at hlist ⊢
  have hxs : ∀ x ∈ xs, (x != e) = true := by
    intro x hx
    rw [bne_iff_ne]
    rintro rfl
    exact hlist.apart (List.mem_cons_of_mem _ hx) List.mem_cons_self
  rw [List.dropWhile_append_of_pos hxs, List.dropWhile_cons_of_neg (by simp), List.tail_cons]
  exact Links.list_next_elem hlist

/-- The loops of `rehash`, from lists that hold the elements to new lists that are empty. -/
theorem move_buckets {n fuel : Nat} (hfind : ∀ e, { h with bucket_cnt := n }.find_bucket e < n)
    (hfuel : ∀ i < h.bucket_cnt, (h.buckets i).length < fuel)
    (hfam : Family s (Sum.elim (fun i : Fin h.bucket_cnt => lists i) fun j : Fin n => new_buckets j)
      (Sum.elim (fun i => h.buckets i) fun _ => [])) :
    ∃ s', Links.move_buckets { h with bucket_cnt := n } new_buckets lists fuel h.bucket_cnt s =
        some s' ∧ (h.rehashed n).Linked s' new_buckets := by
  let b : Nat → Fin n := fun e => ⟨_, hfind e⟩
  have hb : ∀ e, (b e : Nat) = { h with bucket_cnt := n }.find_bucket e := fun _ => rfl
  have hempty : ∀ e, (b e : Nat) =
      { h with buckets := fun _ => [], bucket_cnt := n }.find_bucket e := fun _ => rfl
  have hlen : ∀ i : Fin h.bucket_cnt, (h.buckets i).length < fuel := fun i => hfuel i i.isLt
  rcases Links.move_buckets_spec hb (List.finRange h.bucket_cnt) (List.nodup_finRange _) hempty hlen
    hfam with ⟨s', olds', hmoves, hfam'⟩
  have hrange : (List.finRange h.bucket_cnt).map Fin.val = List.range h.bucket_cnt :=
    List.map_coe_finRange_eq_range
  rw [hrange] at hmoves
  -- of the two families, the new one
  have hnew := hfam'.comp (Sum.inr_injective (α := Fin h.bucket_cnt) (β := Fin n))
  have hmoved : h.rehashed n = (List.finRange h.bucket_cnt).foldl
      (fun h₁ (i : Fin h.bucket_cnt) => (h.buckets i).foldl Hash.move_elem h₁)
      { h with buckets := fun _ => [], bucket_cnt := n } := by
    rw [Hash.rehashed, ← hrange, List.foldl_map]
  rw [← hmoved] at hnew
  exact ⟨s', hmoves, of_family (h := { h with bucket_cnt := n }) (h.rehashed_bucket_cnt n) hnew⟩

end Hash.Linked

/-- `rehash` leaves the table as it is, or moves its elements to new buckets. -/
theorem Hash.rehash_cases {h h' : Hash Nat} {ok : Bool} (hr : h.rehash ok = some h') :
    h' = h ∨ ∃ n, round_down (max (h.elem_cnt / 2) 4) = some n ∧ h' = h.rehashed n := by
  rw [Hash.rehash, Option.bind_eq_bind, Option.bind_eq_some_iff] at hr
  rcases hr with ⟨n, hround, hr⟩
  split at hr
  · exact Or.inl (Option.some.inj hr).symm
  · dsimp only at hr
    split at hr
    · exact Or.inl (Option.some.inj hr).symm
    · rcases Option.bind_eq_some_iff.1 hr with ⟨_, _, hmoved⟩
      exact Or.inr ⟨n, hround, (Option.some.inj hmoved).symm⟩

/-- What the functions of `hash.c` do to a table whose buckets are `lists`. -/
structure Hash.OnLists (h : Hash Nat) (s : Links Nat) (lists : Nat → ListHeader) : Prop where
  find_elem : ∀ bucket < h.bucket_cnt, ∀ e fuel, (h.buckets bucket).length < fuel →
    Links.find_elem h fuel s (lists bucket) e = some (h.find_elem bucket e)
  insert_elem : ∀ bucket < h.bucket_cnt, ∀ e, e ≠ NULL →
    (∀ i < h.bucket_cnt, e ∉ (lists i).nodes (h.buckets i)) →
      ∃ s', s.list_push_front (lists bucket) e = some s' ∧
        (h.insert_elem bucket e).Linked s' lists
  remove_elem : ∀ bucket < h.bucket_cnt, ∀ e ∈ h.buckets bucket,
    ∃ next s', s.list_remove e = some (next, s') ∧ (h.remove_elem e).Linked s' lists
  /-- The new buckets have been made empty lists. -/
  rehash : ∀ ok h', h.rehash ok = some h' → h' = h ∨ ∀ new_buckets fuel,
    (∀ i < h.bucket_cnt, (h.buckets i).length < fuel) →
    Family s (Sum.elim (fun i : Fin h.bucket_cnt => lists i)
        fun j : Fin h'.bucket_cnt => new_buckets j)
      (Sum.elim (fun i => h.buckets i) fun _ => []) →
    ∃ s', Links.move_buckets { h with bucket_cnt := h'.bucket_cnt } new_buckets lists fuel
        h.bucket_cnt s = some s' ∧
      h'.Linked s' new_buckets
  /-- From the head of the bucket. -/
  hash_first : ∀ bucket < h.bucket_cnt,
    s.list_next (lists bucket).head = some ((lists bucket).first (h.buckets bucket))
  /-- The element after `e`, or the tail of the bucket. -/
  hash_next : ∀ bucket < h.bucket_cnt, ∀ e ∈ h.buckets bucket,
    s.list_next e = some ((lists bucket).first
      ((h.buckets bucket).dropWhile fun e' => e' != e).tail)
  /-- The first element of the next bucket, or its tail. -/
  next_bucket : ∀ bucket < h.bucket_cnt,
    s.list_begin (lists bucket) = some ((lists bucket).first (h.buckets bucket))

/-- The sequences of `Hash` are what the functions make of the lists. -/
theorem buckets_linked (hl : h.Linked s lists) (hcnt : h.elem_cnt < WORD) : h.OnLists s lists where
  find_elem bucket hb e fuel hfuel := hl.find_elem hb hfuel
  insert_elem bucket hb e hnull hfree := hl.insert_elem hb hnull hfree
  remove_elem bucket hb e he := hl.remove_elem hb he
  rehash ok h' hr := by
    rcases Hash.rehash_cases hr with hsame | ⟨n, hround, rfl⟩
    · exact Or.inl hsame
    · refine Or.inr fun new_buckets fuel hfuel hfam => ?_
      have hmax : max (h.elem_cnt / 2) 4 < WORD := by
        simp only [WORD] at hcnt ⊢
        omega
      rcases round_down_spec _ (le_max_right _ _) hmax with ⟨k, _, hpow, hle⟩
      have hn : n = 2 ^ k := Option.some.inj (hround.symm.trans hpow)
      have hlt : n < WORD := hn ▸ lt_of_le_of_lt hle hmax
      rw [h.rehashed_bucket_cnt] at hfam ⊢
      exact Hash.Linked.move_buckets (fun e => find_bucket_lt hn hlt e) hfuel hfam
  hash_first bucket hb := by
    have hall : IsList s (lists bucket) ([] ++ h.buckets bucket) := hl.list ⟨bucket, hb⟩
    exact hall.list_next
  hash_next bucket hb e he := hl.list_next hb he
  next_bucket bucket hb := Links.list_begin_eq (hl.list ⟨bucket, hb⟩)

/-- A table that has lost most of its elements. -/
def shrinking : Hash Nat where
  elem_cnt := 3
  bucket_cnt := 8
  buckets i := if i = 0 then [16, 8] else if i = 3 then [3] else []
  hash e := BitVec.ofNat 32 e
  less a b := decide (a < b)

/-- The heads of the old buckets are at 100, 102 and so on, those of the new ones at 200, 202 and so
on, each with its tail behind it. -/
def shrinking_links : Links Nat where
  next e := if e = 100 then 16 else if e = 16 then 8 else if e = 8 then 101
    else if e = 106 then 3 else if e = 3 then 107 else if e % 2 = 0 then e + 1 else NULL
  prev e := if e = 16 then 100 else if e = 8 then 16 else if e = 101 then 8
    else if e = 3 then 106 else if e = 107 then 3 else if e % 2 = 1 then e - 1 else NULL

def old_lists (i : Nat) : ListHeader := ⟨2 * i + 100, 2 * i + 101⟩

def new_lists (i : Nat) : ListHeader := ⟨2 * i + 200, 2 * i + 201⟩

theorem shrinking_family :
    Family shrinking_links (Sum.elim (fun i : Fin 8 => old_lists i) fun j : Fin 4 => new_lists j)
      (Sum.elim (fun i => shrinking.buckets i) fun _ => []) where
  list := by
    rintro (i | i)
    · exact ⟨by unfold Links.Chain Links.Joined; revert i; decide, by revert i; decide,
        by revert i; decide, by revert i; decide, by revert i; decide⟩
    · exact ⟨by unfold Links.Chain Links.Joined; revert i; decide, by revert i; decide,
        by revert i; decide, by revert i; decide, by revert i; decide⟩
  apart := by
    unfold List.Disjoint
    decide +kernel

/-- The eight buckets become four. -/
theorem buckets_linked_shrinking :
    ∃ h' s', shrinking.rehash true = some h' ∧
      (List.range 4).map h'.buckets = [[8, 16], [], [], [3]] ∧
      Links.move_buckets { shrinking with bucket_cnt := 4 } new_lists old_lists 3 8
        shrinking_links = some s' ∧
      h'.Linked s' new_lists := by
  have hr : shrinking.rehash true = some (shrinking.rehashed 4) := by
    rw [Hash.rehash, round_down]
    rfl
  have hl : shrinking.Linked shrinking_links old_lists := shrinking_family.comp Sum.inl_injective
  have hne : shrinking.rehashed 4 ≠ shrinking := fun heq => by
    have hcnt : 4 = 8 := congrArg Hash.bucket_cnt heq
    omega
  rcases (buckets_linked hl (by decide)).rehash true _ hr with heq | hmove
  · exact absurd heq hne
  · rcases hmove new_lists 3 (by decide) shrinking_family with ⟨s', hs', hl'⟩
    exact ⟨_, s', hr, by decide, hs', hl'⟩

end Berk162
