import Berk162.Lib.Links
import Berk162.Threads.Vaddr

/-!
# List — `lib/kernel/list.c`

The links of all list elements are one piece of memory, in which an element is its address.  A list
has two elements of its own, its head and its tail.  An operation that fails an `ASSERT` or follows
a null pointer returns `none`.

`less` is the function of that name on elements, with its auxiliary data.  A loop is given the
number of passes that it may make.
-/

namespace Berk162

/-- `struct list`: the addresses of its head and its tail. -/
structure ListHeader where
  head : Nat
  tail : Nat

namespace Links

variable (s : Links Nat) (list : ListHeader)

def is_head (elem : Nat) : Bool := elem ≠ NULL ∧ s.prev elem = NULL ∧ s.next elem ≠ NULL

def is_interior (elem : Nat) : Bool := elem ≠ NULL ∧ s.prev elem ≠ NULL ∧ s.next elem ≠ NULL

def is_tail (elem : Nat) : Bool := elem ≠ NULL ∧ s.prev elem ≠ NULL ∧ s.next elem = NULL

/-- `elem->next = p` -/
def set_next (elem p : Nat) : Option (Links Nat) := do
  ASSERT (elem ≠ NULL)
  return { s with next := Function.update s.next elem p }

/-- `elem->prev = p` -/
def set_prev (elem p : Nat) : Option (Links Nat) := do
  ASSERT (elem ≠ NULL)
  return { s with prev := Function.update s.prev elem p }

/-! ## Traversal -/

def list_begin : Option Nat := do
  ASSERT (list.head ≠ NULL)
  return s.next list.head

def list_next (elem : Nat) : Option Nat := do
  ASSERT (s.is_head elem || s.is_interior elem)
  return s.next elem

def list_prev (elem : Nat) : Option Nat := do
  ASSERT (s.is_interior elem || s.is_tail elem)
  return s.prev elem

def list_empty : Option Bool := do
  return (← s.list_begin list) = list.tail

/-! ## Insertion and removal -/

def list_insert (before elem : Nat) : Option (Links Nat) := do
  ASSERT (s.is_interior before || s.is_tail before)
  ASSERT (elem ≠ NULL)
  let s ← s.set_prev elem (s.prev before)
  let s ← s.set_next elem before
  let s ← s.set_next (s.prev before) elem
  s.set_prev before elem

def list_splice (before first last : Nat) : Option (Links Nat) := do
  ASSERT (s.is_interior before || s.is_tail before)
  if first = last then
    return s
  else
    let last ← s.list_prev last
    ASSERT (s.is_interior first)
    ASSERT (s.is_interior last)
    -- remove `first` to `last` from their current list
    let s ← s.set_next (s.prev first) (s.next last)
    let s ← s.set_prev (s.next last) (s.prev first)
    -- splice them into the new list
    let s ← s.set_prev first (s.prev before)
    let s ← s.set_next last before
    let s ← s.set_next (s.prev before) first
    s.set_prev before last

def list_push_front (elem : Nat) : Option (Links Nat) := do
  s.list_insert (← s.list_begin list) elem

def list_push_back (elem : Nat) : Option (Links Nat) := s.list_insert list.tail elem

def list_remove (elem : Nat) : Option (Nat × Links Nat) := do
  ASSERT (s.is_interior elem)
  let s ← s.set_next (s.prev elem) (s.next elem)
  let s ← s.set_prev (s.next elem) (s.prev elem)
  return (s.next elem, s)

/-! ## Reversal -/

/-- `swap (&e->prev, &f->next)` -/
def swap (e f : Nat) : Option (Links Nat) := do
  ASSERT (e ≠ NULL)
  ASSERT (f ≠ NULL)
  return ⟨Function.update s.next f (s.prev e), Function.update s.prev e (s.next f)⟩

/-- The loop of `list_reverse`, from `e` on. -/
def reverse_from : Nat → Links Nat → Nat → Option (Links Nat)
  | 0, _, _ => none
  | fuel + 1, s, e => do
      if e = list.tail then
        return s
      else
        let s ← s.swap e e
        reverse_from fuel s (s.prev e)

def list_reverse (fuel : Nat) : Option (Links Nat) := do
  if ← s.list_empty list then
    return s
  else
    let s ← reverse_from list fuel s (← s.list_begin list)
    let s ← s.swap list.tail list.head
    s.swap (s.next list.head) (s.prev list.tail)

/-! ## Well-formed lists -/

end Links

namespace ListHeader

variable (list : ListHeader)

/-- The head, the elements and the tail. -/
def nodes (xs : List Nat) : List Nat := list.head :: xs ++ [list.tail]

/-- The first of the elements `ys` at the end of the list, or the tail. -/
def first (ys : List Nat) : Nat := ys.headD list.tail

/-- The last of the elements `xs` at the beginning of the list, or the head. -/
def last (xs : List Nat) : Nat := xs.getLastD list.head

@[simp] theorem first_cons (y : Nat) (ys : List Nat) : list.first (y :: ys) = y := rfl

@[simp] theorem last_concat (xs : List Nat) (x : Nat) : list.last (xs ++ [x]) = x := by
  rw [last, List.getLastD_concat]

theorem nodes_append (xs ys : List Nat) :
    list.nodes (xs ++ ys) = (list.head :: xs) ++ (ys ++ [list.tail]) := by
  rw [nodes, ← List.cons_append, List.append_assoc]

theorem getLast?_cons (xs : List Nat) : (list.head :: xs).getLast? = some (list.last xs) := by
  rw [List.getLast?_cons, last, List.getLastD_eq_getLast?]

theorem head?_append (ys : List Nat) : (ys ++ [list.tail]).head? = some (list.first ys) := by
  cases ys with
  | nil => rfl
  | cons y ys => rfl

theorem nodes_append₃ (xs fs ys : List Nat) :
    list.nodes (xs ++ (fs ++ ys)) = (list.head :: xs) ++ (fs ++ (ys ++ [list.tail])) := by
  rw [nodes_append, List.append_assoc]

/-- Where among the elements a piece is does not matter for what the nodes are. -/
theorem nodes_perm (xs fs ys : List Nat) :
    (list.nodes (xs ++ (fs ++ ys))).Perm (fs ++ list.nodes (xs ++ ys)) := by
  rw [nodes_append₃, nodes_append]
  exact List.perm_append_comm_assoc _ _ _

theorem nodes_of_perm {xs ys : List Nat} (h : xs.Perm ys) : (list.nodes xs).Perm (list.nodes ys) :=
  (h.cons list.head).append_right [list.tail]

theorem head_mem (xs : List Nat) : list.head ∈ list.nodes xs := List.mem_cons_self

theorem tail_mem (xs : List Nat) : list.tail ∈ list.nodes xs :=
  List.mem_append_right _ (List.mem_singleton_self _)

theorem mem_nodes (xs fs ys : List Nat) (e : Nat) :
    e ∈ list.nodes (xs ++ (fs ++ ys)) ↔ e ∈ fs ∨ e ∈ list.nodes (xs ++ ys) := by
  rw [(list.nodes_perm xs fs ys).mem_iff, List.mem_append]

end ListHeader

/-- The elements of the list are `xs`, and it is linked as it should be. -/
structure IsList (s : Links Nat) (list : ListHeader) (xs : List Nat) : Prop where
  chain : s.Chain (list.nodes xs)
  nodup : (list.nodes xs).Nodup
  not_null : ∀ e ∈ list.nodes xs, e ≠ NULL
  head_prev : s.prev list.head = NULL
  tail_next : s.next list.tail = NULL

namespace IsList

variable {s s' : Links Nat} {list : ListHeader} {xs ys zs fs : List Nat} {e : Nat}

theorem last_mem (list : ListHeader) (xs ys : List Nat) :
    list.last xs ∈ list.nodes (xs ++ ys) := by
  rw [ListHeader.nodes_append]
  exact List.mem_append_left _ (List.mem_of_getLast? (list.getLast?_cons xs))

theorem first_mem (list : ListHeader) (xs ys : List Nat) :
    list.first ys ∈ list.nodes (xs ++ ys) := by
  rw [ListHeader.nodes_append]
  exact List.mem_append_right _ (List.mem_of_head? (list.head?_append ys))

/-- The links between two parts of the list. -/
theorem joined (h : IsList s list (xs ++ ys)) : s.Joined (list.last xs) (list.first ys) := by
  have hchain := h.chain
  rw [ListHeader.nodes_append] at hchain
  exact hchain.joined (list.getLast?_cons xs) (list.head?_append ys)

theorem last_ne_null (h : IsList s list (xs ++ ys)) : list.last xs ≠ NULL :=
  h.not_null _ (last_mem list xs ys)

theorem first_ne_null (h : IsList s list (xs ++ ys)) : list.first ys ≠ NULL :=
  h.not_null _ (first_mem list xs ys)

/-- What is not the tail has a next node. -/
theorem list_next (h : IsList s list (xs ++ ys)) :
    s.list_next (list.last xs) = some (list.first ys) := by
  obtain ⟨hnext, -⟩ := h.joined
  have hassert : (s.is_head (list.last xs) || s.is_interior (list.last xs)) = true := by
    rw [Bool.or_eq_true, Links.is_head, Links.is_interior, decide_eq_true_iff, decide_eq_true_iff]
    by_cases hprev : s.prev (list.last xs) = NULL
    · exact Or.inl ⟨h.last_ne_null, hprev, by rw [hnext]; exact h.first_ne_null⟩
    · exact Or.inr ⟨h.last_ne_null, hprev, by rw [hnext]; exact h.first_ne_null⟩
  rw [Links.list_next, ASSERT_pos hassert, ← hnext]
  rfl

/-- What is not the head has a previous node, and elements may be put in front of it. -/
theorem before_ok (h : IsList s list (xs ++ ys)) :
    (s.is_interior (list.first ys) || s.is_tail (list.first ys)) = true := by
  obtain ⟨-, hprev⟩ := h.joined
  rw [Bool.or_eq_true, Links.is_interior, Links.is_tail, decide_eq_true_iff, decide_eq_true_iff]
  by_cases hnext : s.next (list.first ys) = NULL
  · exact Or.inr ⟨h.first_ne_null, by rw [hprev]; exact h.last_ne_null, hnext⟩
  · exact Or.inl ⟨h.first_ne_null, by rw [hprev]; exact h.last_ne_null, hnext⟩

theorem list_prev (h : IsList s list (xs ++ ys)) :
    s.list_prev (list.first ys) = some (list.last xs) := by
  rw [Links.list_prev, ASSERT_pos h.before_ok, ← h.joined.2]
  rfl

theorem is_interior (h : IsList s list xs) (he : e ∈ xs) : s.is_interior e = true := by
  obtain ⟨ps, qs, rfl⟩ := List.append_of_mem he
  have hprev := h.joined.2
  have hnext : s.next e = list.first qs := by
    have hafter := (List.append_cons ps e qs ▸ h).joined.1
    rwa [ListHeader.last_concat] at hafter
  rw [ListHeader.first_cons] at hprev
  rw [Links.is_interior, decide_eq_true_iff, hprev, hnext]
  refine ⟨h.first_ne_null, h.last_ne_null, ?_⟩
  rw [List.append_cons] at h
  exact h.first_ne_null

/-- Links of other nodes do not matter. -/
theorem of_sameOff {l : List Nat} (h : IsList s list xs) (hsame : Links.SameOff l s s')
    (hoff : ∀ e ∈ list.nodes xs, e ∉ l) : IsList s' list xs where
  chain := h.chain.of_sameOff hsame hoff
  nodup := h.nodup
  not_null := h.not_null
  head_prev := by
    rw [(hsame _ (hoff _ (list.head_mem xs))).2]
    exact h.head_prev
  tail_next := by
    rw [(hsame _ (hoff _ (list.tail_mem xs))).1]
    exact h.tail_next

/-! ### Taking out and putting in -/

/-- No node is both in front of a cut and behind it. -/
theorem apart (h : IsList s list (xs ++ ys)) :
    (list.head :: xs).Disjoint (ys ++ [list.tail]) := by
  have hnodup := h.nodup
  rw [ListHeader.nodes_append] at hnodup
  exact List.disjoint_of_nodup_append hnodup

theorem head_ne_first (h : IsList s list (xs ++ ys)) : list.head ≠ list.first ys := fun heq =>
  h.apart List.mem_cons_self (heq ▸ List.mem_of_head? (list.head?_append ys))

theorem tail_ne_last (h : IsList s list (xs ++ ys)) : list.tail ≠ list.last xs := fun heq =>
  h.apart (heq ▸ List.mem_of_getLast? (list.getLast?_cons xs))
    (List.mem_append_right _ (List.mem_singleton_self _))

/-- The nodes without some of the elements. -/
theorem nodes_sublist (list : ListHeader) (xs fs ys : List Nat) :
    (list.nodes (xs ++ ys)).Sublist (list.nodes (xs ++ (fs ++ ys))) := by
  rw [ListHeader.nodes_append, ListHeader.nodes_append₃]
  exact (List.Sublist.refl _).append (List.sublist_append_right fs _)

variable {f g : Nat}

/-- Elements are taken out of a list. -/
theorem unlink (h : IsList s list (xs ++ (fs ++ ys))) (hF : Links.Ends fs f g) :
    IsList (s.unlink f g) list (xs ++ ys) ∧ (s.unlink f g).Chain fs ∧
      Links.SameOff (list.nodes (xs ++ (fs ++ ys))) s (s.unlink f g) := by
  have hchain := h.chain
  have hnodup := h.nodup
  rw [ListHeader.nodes_append₃] at hchain hnodup
  -- the sentinels make sure that there is a node on either side of the piece
  obtain ⟨heq, hrest, hpiece⟩ := hchain.unlink hnodup hF (list.getLast?_cons xs)
    (list.head?_append ys)
  have hsub := nodes_sublist list xs fs ys
  rw [← ListHeader.nodes_append] at hrest
  refine ⟨⟨hrest, h.nodup.sublist hsub, fun e he => h.not_null e (hsub.subset he), ?_, ?_⟩,
    hpiece, ?_⟩
  · rw [heq, Links.join_prev]
    · exact h.head_prev
    · have hne := (List.append_assoc xs fs ys ▸ h).head_ne_first
      exact hne
  · rw [heq, Links.join_next]
    · exact h.tail_next
    · exact h.tail_ne_last
  · rw [heq]
    exact Links.sameOff_join (hsub.subset (last_mem list xs ys))
      (hsub.subset (first_mem list xs ys))

/-- Elements that are linked among each other are put into a list. -/
theorem link (h : IsList s list (xs ++ ys)) (hc : s.Chain fs) (hF : Links.Ends fs f g)
    (hnodup : (list.nodes (xs ++ (fs ++ ys))).Nodup) (hnull : ∀ e ∈ fs, e ≠ NULL) :
    IsList (s.link (list.first ys) f g) list (xs ++ (fs ++ ys)) ∧
      Links.SameOff (list.nodes (xs ++ (fs ++ ys))) s (s.link (list.first ys) f g) := by
  have hchain := h.chain
  have hnodup' := hnodup
  rw [ListHeader.nodes_append] at hchain
  rw [ListHeader.nodes_append₃] at hnodup'
  obtain ⟨heq, hnew⟩ := hchain.link hc hnodup' hF (list.getLast?_cons xs) (list.head?_append ys)
  have hsub := nodes_sublist list xs fs ys
  have hmem : ∀ e ∈ fs, e ∈ list.nodes (xs ++ (fs ++ ys)) := by
    intro e he
    rw [ListHeader.nodes_append₃]
    exact List.mem_append_right _ (List.mem_append_left _ he)
  have hf := List.mem_of_head? hF.head
  have hg := List.mem_of_getLast? hF.last
  rw [← ListHeader.nodes_append₃] at hnew
  obtain ⟨-, hnB, hdisj⟩ := List.nodup_append'.1 hnodup'
  obtain ⟨-, -, hdisj'⟩ := List.nodup_append'.1 hnB
  -- the outer links of the sentinels are none of the four that are stored
  refine ⟨⟨hnew, hnodup, fun e he => ?_, ?_, ?_⟩, ?_⟩
  · rw [ListHeader.nodes_append₃] at he
    rcases List.mem_append.1 he with he | he
    · exact h.not_null e (by rw [ListHeader.nodes_append]; exact List.mem_append_left _ he)
    · rcases List.mem_append.1 he with he | he
      · exact hnull e he
      · exact h.not_null e (by rw [ListHeader.nodes_append]; exact List.mem_append_right _ he)
  · have hne : list.head ≠ f := fun hh =>
      hdisj List.mem_cons_self (List.mem_append_left _ (hh ▸ hf))
    rw [heq, Links.join_prev _ _ h.head_ne_first, Links.join_prev _ _ hne]
    exact h.head_prev
  · have hne : list.tail ≠ g := fun hh =>
      hdisj' (hh ▸ hg) (List.mem_append_right _ (List.mem_singleton_self _))
    rw [heq, Links.join_next _ _ hne, Links.join_next _ _ h.tail_ne_last]
    exact h.tail_next
  · rw [heq]
    exact (Links.sameOff_join (hsub.subset (last_mem list xs ys)) (hmem f hf)).trans
      (Links.sameOff_join (hmem g hg) (hsub.subset (first_mem list xs ys)))

end IsList

/-! ## What the operations do -/

namespace Links

variable {s s' : Links Nat} {list other : ListHeader} {xs ys fs ps qs : List Nat}
  {before elem first last : Nat}

theorem set_next_eq {e p : Nat} (he : e ≠ NULL) :
    s.set_next e p = some { s with next := Function.update s.next e p } := by
  rw [set_next, ASSERT_pos he]
  rfl

theorem set_prev_eq {e p : Nat} (he : e ≠ NULL) :
    s.set_prev e p = some { s with prev := Function.update s.prev e p } := by
  rw [set_prev, ASSERT_pos he]
  rfl

/-- The four stores that link a piece, when its ends are not where it is put. -/
theorem stores_link (hf : first ≠ NULL) (hl : last ≠ NULL) (hb : before ≠ NULL)
    (hp : s.prev before ≠ NULL) (hbf : before ≠ first) (hpl : s.prev before ≠ last) :
    ((s.set_prev first (s.prev before)).bind fun s => (s.set_next last before).bind fun s =>
      (s.set_next (s.prev before) first).bind fun s => s.set_prev before last) =
        some (s.link before first last) := by
  -- the third store reads `prev` of `before`, which the first has not changed
  have hkeep : Function.update s.prev first (s.prev before) before = s.prev before :=
    Function.update_of_ne hbf _ _
  rw [set_prev_eq hf, Option.bind_some, set_next_eq hl, Option.bind_some]
  dsimp only
  rw [hkeep, set_next_eq hp, Option.bind_some, set_prev_eq hb, link, join, join]
  dsimp only
  rw [Function.update_comm hpl]

/-- The two stores that leave out a piece. -/
theorem stores_unlink {β : Type} (k : Links Nat → Option β) (hp : s.prev first ≠ NULL)
    (hn : s.next last ≠ NULL) (hpl : last ≠ s.prev first) :
    ((s.set_next (s.prev first) (s.next last)).bind fun s =>
      (s.set_prev (s.next last) (s.prev first)).bind k) = k (s.unlink first last) := by
  -- the second store reads `next` of `last` again
  have hkeep : Function.update s.next (s.prev first) (s.next last) last = s.next last :=
    Function.update_of_ne hpl _ _
  rw [set_next_eq hp, Option.bind_some]
  dsimp only
  rw [hkeep, set_prev_eq hn, Option.bind_some, unlink, join]

/-! ### Insertion and removal -/

theorem list_insert_spec (h : IsList s list (xs ++ ys)) (he : elem ∉ list.nodes (xs ++ ys))
    (hnull : elem ≠ NULL) :
    ∃ s', s.list_insert (list.first ys) elem = some s' ∧ IsList s' list (xs ++ elem :: ys) ∧
      SameOff (list.nodes (xs ++ elem :: ys)) s s' := by
  have hfirst := IsList.first_mem list xs ys
  have hlast := IsList.last_mem list xs ys
  have hprev := h.joined.2
  have hnodup : (list.nodes (xs ++ ([elem] ++ ys))).Nodup :=
    (list.nodes_perm xs [elem] ys).nodup_iff.2 (List.nodup_cons.2 ⟨he, h.nodup⟩)
  -- one element is a piece whose first and last node are the same
  obtain ⟨hlist, hsame⟩ := h.link (List.isChain_singleton elem) (Ends.singleton elem) hnodup
    (by simpa using hnull)
  refine ⟨_, ?_, hlist, hsame⟩
  rw [list_insert, ASSERT_pos h.before_ok, ASSERT_pos hnull]
  refine stores_link hnull hnull h.first_ne_null ?_ ?_ ?_
  · rw [hprev]
    exact h.last_ne_null
  · exact fun heq => he (heq ▸ hfirst)
  · rw [hprev]
    exact fun heq => he (heq ▸ hlast)

theorem list_push_back_spec (h : IsList s list xs) (he : elem ∉ list.nodes xs)
    (hnull : elem ≠ NULL) :
    ∃ s', s.list_push_back list elem = some s' ∧ IsList s' list (xs ++ [elem]) ∧
      SameOff (list.nodes (xs ++ [elem])) s s' := by
  rw [← List.append_nil xs] at h he
  exact list_insert_spec h he hnull

theorem list_remove_spec (h : IsList s list (xs ++ elem :: ys)) :
    ∃ s', s.list_remove elem = some (list.first ys, s') ∧ IsList s' list (xs ++ ys) ∧
      SameOff (list.nodes (xs ++ elem :: ys)) s s' := by
  have hprev := h.joined.2
  have hcons := h
  rw [List.append_cons] at hcons
  have hnext := hcons.joined.1
  rw [ListHeader.first_cons] at hprev
  rw [ListHeader.last_concat] at hnext
  have hlist : IsList s list (xs ++ ([elem] ++ ys)) := h
  have hne : elem ≠ list.last xs := fun heq =>
    h.apart (heq ▸ List.mem_of_getLast? (list.getLast?_cons xs)) List.mem_cons_self
  obtain ⟨hrest, -, hsame⟩ := hlist.unlink (Ends.singleton elem)
  refine ⟨_, ?_, hrest, hsame⟩
  rw [list_remove, ASSERT_pos (h.is_interior (List.mem_append_right _ List.mem_cons_self))]
  refine (stores_unlink (fun s => some (s.next elem, s)) ?_ ?_ ?_).trans ?_
  · rw [hprev]
    exact h.last_ne_null
  · rw [hnext]
    exact hcons.first_ne_null
  · rw [hprev]
    exact hne
  · -- `list_remove` returns what was behind the element, whose own links stay
    rw [unlink, hprev, join_next _ _ hne, hnext]

/-! ### Splicing -/

theorem list_splice_same (h : IsList s list (xs ++ ys)) (first : Nat) :
    s.list_splice (list.first ys) first first = some s := by
  rw [list_splice, ASSERT_pos h.before_ok]
  exact if_pos rfl

/-- A piece is taken out of `other` and put into `list`, which may be the same. -/
theorem list_splice_piece {f g : Nat} (h : IsList s other (ps ++ (fs ++ qs))) (hF : Ends fs f g)
    (hbefore : (s.is_interior (list.first ys) || s.is_tail (list.first ys)) = true)
    (h' : IsList (s.unlink f g) list (xs ++ ys)) (hnodup : (list.nodes (xs ++ (fs ++ ys))).Nodup) :
    ∃ s', s.list_splice (list.first ys) (other.first (fs ++ qs)) (other.first qs) = some s' ∧
      IsList s' list (xs ++ (fs ++ ys)) ∧
      SameOff (list.nodes (xs ++ (fs ++ ys))) (s.unlink f g) s' := by
  have hf := List.mem_of_head? hF.head
  have hg := List.mem_of_getLast? hF.last
  have hin : ∀ e ∈ fs, e ∈ ps ++ (fs ++ qs) := fun e he =>
    List.mem_append_right _ (List.mem_append_left _ he)
  have hnull : ∀ e ∈ fs, e ≠ NULL := fun e he => h.not_null e
    (List.mem_cons_of_mem _ (List.mem_append_left _ (hin e he)))
  obtain ⟨-, hpiece, -⟩ := h.unlink hF
  obtain ⟨hlist, hsame⟩ := h'.link hpiece hF hnodup hnull
  have hfirst : other.first (fs ++ qs) = f := by
    rw [ListHeader.first, List.headD_eq_head?_getD, List.head?_append, hF.head]
    rfl
  have hlast : other.last (ps ++ fs) = g := by
    rw [ListHeader.last, List.getLastD_eq_getLast?, List.getLast?_append, hF.last]
    rfl
  have hassoc := h
  rw [← List.append_assoc] at hassoc
  have hprev : s.prev f = other.last ps := by
    rw [← hfirst]
    exact h.joined.2
  have hnext : s.next g = other.first qs := by
    rw [← hlast]
    exact hassoc.joined.1
  have hprev' := h'.joined.2
  -- the nodes that are read are not those that are written before
  have hnodes := h.nodup
  rw [ListHeader.nodes_append₃] at hnodes
  obtain ⟨-, hnFB, hdisj⟩ := List.nodup_append'.1 hnodes
  have hnodes' := hnodup
  rw [ListHeader.nodes_append₃] at hnodes'
  obtain ⟨-, hnFB', hdisj'⟩ := List.nodup_append'.1 hnodes'
  have hne : f ≠ other.first qs := fun heq => List.disjoint_of_nodup_append hnFB hf
    (heq ▸ List.mem_of_head? (other.head?_append qs))
  have hgp : g ≠ other.last ps := fun heq => hdisj
    (heq ▸ List.mem_of_getLast? (other.getLast?_cons ps)) (List.mem_append_left _ hg)
  have hbf : list.first ys ≠ f := fun heq => List.disjoint_of_nodup_append hnFB' hf
    (heq ▸ List.mem_of_head? (list.head?_append ys))
  have hpg : list.last xs ≠ g := fun heq => hdisj'
    (heq ▸ List.mem_of_getLast? (list.getLast?_cons xs)) (List.mem_append_left _ hg)
  refine ⟨_, ?_, hlist, hsame⟩
  rw [hfirst, list_splice, ASSERT_pos hbefore]
  refine (if_neg hne).trans ?_
  rw [hassoc.list_prev, hlast]
  change ((ASSERT (s.is_interior f = true)).bind fun _ =>
    (ASSERT (s.is_interior g = true)).bind fun _ => _) = _
  rw [ASSERT_pos (h.is_interior (hin f hf)), ASSERT_pos (h.is_interior (hin g hg))]
  refine (stores_unlink _ ?_ ?_ ?_).trans (stores_link (hnull f hf) (hnull g hg)
    h'.first_ne_null ?_ hbf ?_)
  · rw [hprev]
    exact h.last_ne_null
  · rw [hnext]
    exact hassoc.first_ne_null
  · rw [hprev]
    exact hgp
  · rw [hprev']
    exact h'.last_ne_null
  · rw [hprev']
    exact hpg

theorem exists_ends {α : Type*} {l : List α} (h : l ≠ []) : ∃ f g, Ends l f g :=
  ⟨l.head h, l.getLast h, List.head?_eq_some_head h, List.getLast?_eq_some_getLast h⟩

/-- Elements move to another list. -/
theorem list_splice_other (h : IsList s list (xs ++ ys)) (h' : IsList s other (ps ++ (fs ++ qs)))
    (hdisj : (list.nodes (xs ++ ys)).Disjoint (other.nodes (ps ++ (fs ++ qs)))) :
    ∃ s', s.list_splice (list.first ys) (other.first (fs ++ qs)) (other.first qs) = some s' ∧
      IsList s' list (xs ++ (fs ++ ys)) ∧ IsList s' other (ps ++ qs) ∧
      SameOff (list.nodes (xs ++ ys) ++ other.nodes (ps ++ (fs ++ qs))) s s' := by
  by_cases hfs : fs = []
  · subst hfs
    exact ⟨s, list_splice_same h _, h, h', SameOff.refl _ _⟩
  · obtain ⟨f, g, hF⟩ := exists_ends hfs
    obtain ⟨hother, -, hsame⟩ := h'.unlink hF
    have hlist := h.of_sameOff hsame fun e he hmem => hdisj he hmem
    have hnodes := (other.nodes_perm ps fs qs).nodup_iff.1 h'.nodup
    obtain ⟨hnF, -, hapart⟩ := List.nodup_append'.1 hnodes
    -- the piece shares no node with the list that it goes to, nor with the rest of its own
    have hoff : fs.Disjoint (list.nodes (xs ++ ys)) := fun e he hmem =>
      hdisj hmem ((other.mem_nodes ps fs qs e).2 (Or.inl he))
    have hnodup : (list.nodes (xs ++ (fs ++ ys))).Nodup :=
      (list.nodes_perm xs fs ys).nodup_iff.2 (List.nodup_append'.2 ⟨hnF, h.nodup, hoff⟩)
    obtain ⟨s', hsplice, hnew, hsame'⟩ := list_splice_piece h' hF h.before_ok hlist hnodup
    refine ⟨s', hsplice, hnew, hother.of_sameOff hsame' fun e he hmem => ?_, ?_⟩
    · rcases (list.mem_nodes xs fs ys e).1 hmem with hmem | hmem
      · exact hapart hmem he
      · exact hdisj hmem ((other.mem_nodes ps fs qs e).2 (Or.inr he))
    · refine SameOff.trans (hsame.mono fun e he => List.mem_append_right _ he)
        (hsame'.mono fun e he => ?_)
      rcases (list.mem_nodes xs fs ys e).1 he with he | he
      · exact List.mem_append_right _ ((other.mem_nodes ps fs qs e).2 (Or.inl he))
      · exact List.mem_append_left _ he

/-- Elements move within their list. -/
theorem list_splice_within (h : IsList s list (ps ++ (fs ++ qs))) (hrest : ps ++ qs = xs ++ ys)
    (hbefore : (s.is_interior (list.first ys) || s.is_tail (list.first ys)) = true) :
    ∃ s', s.list_splice (list.first ys) (list.first (fs ++ qs)) (list.first qs) = some s' ∧
      IsList s' list (xs ++ (fs ++ ys)) ∧ SameOff (list.nodes (ps ++ (fs ++ qs))) s s' := by
  by_cases hfs : fs = []
  · subst hfs
    have hstay : IsList s list (xs ++ ys) := hrest ▸ h
    exact ⟨s, list_splice_same hstay _, hstay, SameOff.refl _ _⟩
  · obtain ⟨f, g, hF⟩ := exists_ends hfs
    obtain ⟨hlist, -, hsame⟩ := h.unlink hF
    rw [hrest] at hlist
    -- the same nodes, in another order
    have hperm : (list.nodes (xs ++ (fs ++ ys))).Perm (list.nodes (ps ++ (fs ++ qs))) := by
      have hnew := list.nodes_perm xs fs ys
      rw [← hrest] at hnew
      exact hnew.trans (list.nodes_perm ps fs qs).symm
    obtain ⟨s', hsplice, hnew, hsame'⟩ :=
      list_splice_piece h hF hbefore hlist (hperm.nodup_iff.2 h.nodup)
    exact ⟨s', hsplice, hnew, hsame.trans (hsame'.mono fun e he => hperm.subset he)⟩

/-- Elements move towards the end of their list. -/
theorem list_splice_forward (h : IsList s list (ps ++ (fs ++ (qs ++ ys)))) :
    ∃ s', s.list_splice (list.first ys) (list.first (fs ++ (qs ++ ys))) (list.first (qs ++ ys)) =
        some s' ∧ IsList s' list (ps ++ (qs ++ (fs ++ ys))) ∧
      SameOff (list.nodes (ps ++ (fs ++ (qs ++ ys)))) s s' := by
  have hbefore : (s.is_interior (list.first ys) || s.is_tail (list.first ys)) = true := by
    have hsplit := h
    rw [← List.append_assoc, ← List.append_assoc] at hsplit
    exact hsplit.before_ok
  have hrest : ps ++ (qs ++ ys) = (ps ++ qs) ++ ys := (List.append_assoc ps qs ys).symm
  have hmoved := list_splice_within h hrest hbefore
  rwa [List.append_assoc ps qs] at hmoved

/-- Elements move towards the beginning of their list. -/
theorem list_splice_backward (h : IsList s list (xs ++ (qs ++ (fs ++ ys)))) (hqs : qs ≠ []) :
    ∃ s', s.list_splice (list.first (qs ++ (fs ++ ys))) (list.first (fs ++ ys)) (list.first ys) =
        some s' ∧ IsList s' list (xs ++ (fs ++ (qs ++ ys))) ∧
      SameOff (list.nodes (xs ++ (qs ++ (fs ++ ys)))) s s' := by
  have hfirst : list.first (qs ++ (fs ++ ys)) = list.first (qs ++ ys) := by
    obtain ⟨q, qs, rfl⟩ := List.exists_cons_of_ne_nil hqs
    rfl
  have hbefore := h.before_ok
  rw [hfirst] at hbefore ⊢
  rw [← List.append_assoc xs qs] at h ⊢
  exact list_splice_within h (List.append_assoc xs qs ys) hbefore

/-! ### Reversal -/

/-- The links of the elements of `l` have changed places. -/
def Swapped (l : List Nat) (s s' : Links Nat) : Prop :=
  (∀ e ∈ l, s'.next e = s.prev e ∧ s'.prev e = s.next e) ∧ SameOff l s s'

theorem swap_eq {e f : Nat} (he : e ≠ NULL) (hf : f ≠ NULL) :
    s.swap e f =
      some ⟨Function.update s.next f (s.prev e), Function.update s.prev e (s.next f)⟩ := by
  rw [swap, ASSERT_pos he, ASSERT_pos hf]
  rfl

theorem tail_notMem (h : IsList s list xs) : list.tail ∉ xs := by
  rw [← List.append_nil xs] at h
  exact fun hmem => h.apart (List.mem_cons_of_mem _ hmem) (List.mem_singleton_self _)

theorem head_notMem (h : IsList s list xs) : list.head ∉ xs := by
  have hlist : IsList s list ([] ++ xs) := h
  exact fun hmem => hlist.apart List.mem_cons_self (List.mem_append_left _ hmem)

theorem list_begin_eq (h : IsList s list xs) : s.list_begin list = some (list.first xs) := by
  have hlist : IsList s list ([] ++ xs) := h
  have hhead : list.head ≠ NULL := hlist.last_ne_null
  rw [list_begin, ASSERT_pos hhead]
  exact congrArg some hlist.joined.1

theorem first_eq_tail_iff (h : IsList s list xs) : list.first xs = list.tail ↔ xs = [] := by
  cases xs with
  | nil => exact iff_of_true rfl rfl
  | cons x xs =>
      refine iff_of_false (fun heq => ?_) (List.cons_ne_nil x xs)
      exact tail_notMem h (heq ▸ List.mem_cons_self)

theorem list_empty_eq (h : IsList s list xs) : s.list_empty list = some (decide (xs = [])) := by
  rw [list_empty, list_begin_eq h]
  exact congrArg some (decide_eq_decide.2 (first_eq_tail_iff h))

/-- One more element is turned round. -/
theorem Swapped.step {q : Nat} (h : Swapped ps s s') (hq : q ∉ ps) :
    Swapped (ps ++ [q]) s
      ⟨Function.update s'.next q (s'.prev q), Function.update s'.prev q (s'.next q)⟩ := by
  constructor
  · intro e he
    dsimp only
    by_cases heq : e = q
    · -- the links of `q` are still as they were before the loop
      subst heq
      rw [Function.update_self, Function.update_self]
      exact ⟨(h.2 e hq).2, (h.2 e hq).1⟩
    · have he' := (List.mem_append.1 he).resolve_right fun hmem =>
        heq (List.mem_singleton.1 hmem)
      rw [Function.update_of_ne heq, Function.update_of_ne heq]
      exact h.1 e he'
  · intro e he
    rw [List.mem_append, not_or, List.mem_singleton] at he
    dsimp only
    rw [Function.update_of_ne he.2, Function.update_of_ne he.2]
    exact h.2 e he.1

/-- Each pass of the loop goes on with what was the next element. -/
theorem reverse_from_spec (qs : List Nat) : ∀ ps s', IsList s list (ps ++ qs) → Swapped ps s s' →
    ∃ s'', (∀ fuel, qs.length < fuel → reverse_from list fuel s' (list.first qs) = some s'') ∧
      Swapped (ps ++ qs) s s'' := by
  induction qs with
  | nil =>
      intro ps s' _ hs
      refine ⟨s', fun fuel hfuel => ?_, by rwa [List.append_nil]⟩
      obtain ⟨fuel, rfl⟩ := Nat.exists_eq_add_of_le' hfuel
      exact if_pos rfl
  | cons q qs ih =>
      intro ps s' h hs
      have hq : q ∉ ps := fun hmem => h.apart (List.mem_cons_of_mem _ hmem) List.mem_cons_self
      have htail : q ≠ list.tail := fun heq =>
        tail_notMem h (heq ▸ List.mem_append_right ps List.mem_cons_self)
      have hnull : q ≠ NULL := h.first_ne_null
      have h' := h
      rw [List.append_cons] at h'
      have hnext := h'.joined.1
      rw [ListHeader.last_concat] at hnext
      have hsame := hs.2 q hq
      -- the invariant: the elements in front of the cursor are turned round, nothing else is changed
      obtain ⟨s'', hrest, hs''⟩ := ih (ps ++ [q]) _ h' (hs.step hq)
      refine ⟨s'', fun fuel hfuel => ?_, by rwa [← List.append_cons] at hs''⟩
      obtain ⟨fuel, rfl⟩ := Nat.exists_eq_add_of_le' (show 1 ≤ fuel by omega)
      -- `list_prev` of an element that is turned round goes on to what was the next one
      have hgo : Function.update s'.prev q (s'.next q) q = list.first qs := by
        rw [Function.update_self, hsame.1, hnext]
      refine (if_neg htail).trans ?_
      rw [ListHeader.first_cons, swap_eq hnull hnull, Option.bind_eq_bind, Option.bind_some]
      dsimp only
      rw [hgo]
      exact hrest fuel (Nat.lt_of_succ_lt_succ hfuel)

/-- The elements are a chain the other way round. -/
theorem Swapped.chain (h : IsList s list xs) (hs : Swapped xs s s') : s'.Chain xs.reverse := by
  have hchain : s.Chain xs := (Chain.left (A := list.head :: xs) h.chain).right (A := [list.head])
  refine List.isChain_reverse.2 (List.IsChain.imp_of_mem_imp (fun a b ha hb hab => ?_) hchain)
  exact ⟨(hs.1 b hb).1.trans hab.2, (hs.1 a ha).2.trans hab.1⟩

theorem list_reverse_spec (h : IsList s list xs) :
    ∃ s', (∀ fuel, xs.length < fuel → s.list_reverse list fuel = some s') ∧
      IsList s' list xs.reverse ∧ SameOff (list.nodes xs) s s' := by
  by_cases hxs : xs = []
  · subst hxs
    refine ⟨s, fun fuel _ => ?_, h, SameOff.refl _ _⟩
    rw [list_reverse, list_empty_eq h]
    rfl
  · obtain ⟨s₂, hloop, hs₂⟩ := reverse_from_spec xs [] s h
      ⟨fun e he => absurd he List.not_mem_nil, SameOff.refl _ _⟩
    rw [List.nil_append] at hs₂
    obtain ⟨x, y, hends⟩ := exists_ends hxs
    have hx := List.mem_of_head? hends.head
    have hy := List.mem_of_getLast? hends.last
    have hmem : ∀ e ∈ xs, e ∈ list.nodes xs := fun e he =>
      List.mem_cons_of_mem _ (List.mem_append_left _ he)
    have hhead := head_notMem h
    have htail := tail_notMem h
    -- the links of the ends before the loop
    have hnodes : s.Chain ([list.head] ++ (xs ++ [list.tail])) := h.chain
    have hfirst : s.Joined list.head x :=
      hnodes.joined rfl (by rw [List.head?_append, hends.head]; rfl)
    have hlast : s.Joined y list.tail := hnodes.right.joined hends.last rfl
    have hheadnull : list.head ≠ NULL := h.not_null _ (list.head_mem xs)
    have htailnull : list.tail ≠ NULL := h.not_null _ (list.tail_mem xs)
    have hheadtail : list.head ≠ list.tail := by
      have hnil : IsList s list (xs ++ []) := by rwa [List.append_nil]
      exact hnil.head_ne_first
    have hxhead : x ≠ list.head := fun heq => hhead (heq ▸ hx)
    have hytail : y ≠ list.tail := fun heq => htail (heq ▸ hy)
    have hyhead : y ≠ list.head := fun heq => hhead (heq ▸ hy)
    have hxtail : x ≠ list.tail := fun heq => htail (heq ▸ hx)
    -- after it the first element is linked to the head and the last to the tail
    have hnext : s₂.next list.head = x := (hs₂.2 _ hhead).1.trans hfirst.1
    have hprev : s₂.prev list.tail = y := (hs₂.2 _ htail).2.trans hlast.2
    have hxnext : s₂.next x = list.head := (hs₂.1 x hx).1.trans hfirst.2
    have hyprev : s₂.prev y = list.tail := (hs₂.1 y hy).2.trans hlast.1
    have hperm := list.nodes_of_perm (List.reverse_perm xs)
    have hnodup : ([list.head] ++ xs.reverse ++ [list.tail]).Nodup := hperm.nodup_iff.2 h.nodup
    -- the two calls of `swap` behind the loop join the reversed chain to both sentinels
    have hchain := (Chain.join (List.isChain_singleton list.head) (hs₂.chain h)
      (List.nodup_append'.1 hnodup).1 rfl (by rw [List.head?_reverse]; exact hends.last)).join
      (List.isChain_singleton list.tail) hnodup
      (by rw [List.getLast?_append, List.getLast?_reverse, hends.head]; rfl) rfl
    refine ⟨(s₂.join list.head y).join x list.tail, fun fuel hfuel => ?_,
      ⟨hchain, hnodup, fun e he => ?_, ?_, ?_⟩, ?_⟩
    · rw [list_reverse, list_empty_eq h, decide_eq_false hxs]
      change (s.list_begin list).bind _ = _
      rw [list_begin_eq h, Option.bind_some, hloop fuel hfuel]
      change ((s₂.swap list.tail list.head).bind fun s => s.swap (s.next list.head)
        (s.prev list.tail)) = _
      rw [swap_eq htailnull hheadnull, Option.bind_some, hnext, hprev]
      dsimp only
      rw [Function.update_self, Function.update_self,
        swap_eq (h.not_null y (hmem y hy)) (h.not_null x (hmem x hx))]
      dsimp only
      rw [Function.update_of_ne hytail, Function.update_of_ne hxhead, hxnext, hyprev,
        Function.update_comm (Ne.symm hytail)]
      rfl
    · exact h.not_null e (hperm.subset he)
    · rw [join_prev _ _ hheadtail, join_prev _ _ (Ne.symm hyhead), (hs₂.2 _ hhead).2]
      exact h.head_prev
    · rw [join_next _ _ (Ne.symm hxtail), join_next _ _ (Ne.symm hheadtail), (hs₂.2 _ htail).1]
      exact h.tail_next
    · exact ((hs₂.2.mono hmem).trans (sameOff_join (list.head_mem xs) (hmem y hy))).trans
        (sameOff_join (hmem x hx) (list.tail_mem xs))

end Links

end Berk162
