import Mathlib.Data.List.Chain
import Mathlib.Data.List.Nodup
import Mathlib.Logic.Function.Basic
import Mathlib.Tactic

/-!
# Links — doubly linked nodes

Each node has a link to the next and one to the previous node.  A chain is a sequence of nodes in
which neighbours are linked both ways; the outer links of its ends are free.  Whatever is done to
linked lists is done by joining the end of one chain to the beginning of another.

We provide:

* `Chain.join` — two chains joined are one chain;
* `Chain.unlink` — a piece taken out of a chain, with the rest joined;
* `Chain.link` — a piece put into a chain;
* `SameOff` — the links of all other nodes are as they were.
-/

namespace Berk162

/-- The links of all nodes. -/
structure Links (α : Type*) where
  next : α → α
  prev : α → α

namespace Links

variable {α : Type*} {s s' s'' : Links α} {a b f g x : α} {A B C F l : List α}

/-- The two nodes are neighbours. -/
def Joined (s : Links α) (a b : α) : Prop := s.next a = b ∧ s.prev b = a

/-- Neighbours in the list are neighbours in memory. -/
def Chain (s : Links α) (l : List α) : Prop := l.IsChain s.Joined

/-! ## Frames -/

/-- The links of nodes that are not in `l` are the same. -/
def SameOff (l : List α) (s s' : Links α) : Prop :=
  ∀ e, e ∉ l → s'.next e = s.next e ∧ s'.prev e = s.prev e

theorem SameOff.refl (l : List α) (s : Links α) : SameOff l s s := fun _ _ => ⟨rfl, rfl⟩

theorem SameOff.trans (h : SameOff l s s') (h' : SameOff l s' s'') : SameOff l s s'' := fun e he =>
  ⟨(h' e he).1.trans (h e he).1, (h' e he).2.trans (h e he).2⟩

theorem SameOff.mono (h : SameOff l s s') (hsub : ∀ e ∈ l, e ∈ C) : SameOff C s s' := fun e he =>
  h e fun hmem => he (hsub e hmem)

theorem Chain.of_sameOff (h : s.Chain C) (hsame : SameOff l s s') (hoff : ∀ e ∈ C, e ∉ l) :
    s'.Chain C := by
  refine List.IsChain.imp_of_mem_imp (fun a b ha hb hab => ?_) h
  exact ⟨(hsame a (hoff a ha)).1.trans hab.1, (hsame b (hoff b hb)).2.trans hab.2⟩

/-! ## Joining -/

theorem Chain.left (h : s.Chain (A ++ B)) : s.Chain A := List.IsChain.left_of_append h

theorem Chain.right (h : s.Chain (A ++ B)) : s.Chain B := List.IsChain.right_of_append h

theorem Chain.joined (h : s.Chain (A ++ B)) (ha : A.getLast? = some a) (hb : B.head? = some b) :
    s.Joined a b :=
  (List.isChain_append.1 h).2.2 a ha b hb

theorem chain_append (hA : s.Chain A) (hB : s.Chain B) (ha : A.getLast? = some a)
    (hb : B.head? = some b) (hab : s.Joined a b) : s.Chain (A ++ B) := by
  refine List.isChain_append.2 ⟨hA, hB, fun x hx y hy => ?_⟩
  obtain rfl := Option.some.inj (ha.symm.trans hx)
  obtain rfl := Option.some.inj (hb.symm.trans hy)
  exact hab

theorem notMem_dropLast (hnodup : A.Nodup) (ha : A.getLast? = some a) : a ∉ A.dropLast := by
  obtain ⟨A, rfl⟩ := List.getLast?_eq_some_iff.1 ha
  rw [List.dropLast_concat]
  intro hmem
  exact List.disjoint_of_nodup_append hnodup hmem (List.mem_singleton_self a)

theorem notMem_tail (hnodup : B.Nodup) (hb : B.head? = some b) : b ∉ B.tail := by
  obtain ⟨B, rfl⟩ := List.head?_eq_some_iff.1 hb
  exact (List.nodup_cons.1 hnodup).1

/-- The ends of a piece that is not empty. -/
structure Ends (F : List α) (f g : α) : Prop where
  head : F.head? = some f
  last : F.getLast? = some g

theorem Ends.singleton (f : α) : Ends [f] f f := ⟨rfl, rfl⟩

variable [DecidableEq α]

/-- `b` comes after `a` from now on. -/
def join (s : Links α) (a b : α) : Links α where
  next := Function.update s.next a b
  prev := Function.update s.prev b a

theorem join_joined (s : Links α) (a b : α) : (s.join a b).Joined a b := by
  simp only [Joined, join, Function.update_self, and_self]

theorem join_next (s : Links α) (b : α) (h : x ≠ a) : (s.join a b).next x = s.next x := by
  simp only [join, Function.update_of_ne h]

theorem join_prev (s : Links α) (a : α) (h : x ≠ b) : (s.join a b).prev x = s.prev x := by
  simp only [join, Function.update_of_ne h]

theorem sameOff_join (ha : a ∈ l) (hb : b ∈ l) : SameOff l s (s.join a b) := fun _ he =>
  ⟨join_next s b fun h => he (h ▸ ha), join_prev s a fun h => he (h ▸ hb)⟩

/-- A chain stays one if only its outer links change. -/
theorem Chain.join_outer (h : s.Chain l) (ha : a ∉ l.dropLast) (hb : b ∉ l.tail) :
    (s.join a b).Chain l := by
  induction l with
  | nil => exact .nil
  | cons x l ih =>
      cases l with
      | nil => exact .singleton x
      | cons y l =>
          -- `x` is not the last node, and `y` not the first
          obtain ⟨⟨hnext, hprev⟩, hl⟩ := List.isChain_cons_cons.1 h
          rw [List.dropLast_cons_cons, List.mem_cons, not_or] at ha
          rw [List.tail_cons, List.mem_cons, not_or] at hb
          refine List.isChain_cons_cons.2 ⟨⟨?_, ?_⟩, ih hl ha.2 hb.2⟩
          · rw [join_next s b (Ne.symm ha.1), hnext]
          · rw [join_prev s a (Ne.symm hb.1), hprev]

/-- Two chains are joined at the end of one and the beginning of the other. -/
theorem Chain.join (hA : s.Chain A) (hB : s.Chain B) (hnodup : (A ++ B).Nodup)
    (ha : A.getLast? = some a) (hb : B.head? = some b) : (s.join a b).Chain (A ++ B) := by
  obtain ⟨hnA, hnB, hdisj⟩ := List.nodup_append'.1 hnodup
  -- `next` of `a` and `prev` of `b` are outer links of their chains
  have haB : a ∉ B := fun hmem => hdisj (List.mem_of_getLast? ha) hmem
  have hbA : b ∉ A := fun hmem => hdisj hmem (List.mem_of_head? hb)
  refine chain_append ?_ ?_ ha hb (join_joined s a b)
  · exact hA.join_outer (notMem_dropLast hnA ha) fun hmem => hbA (List.mem_of_mem_tail hmem)
  · exact hB.join_outer (fun hmem => haB (List.mem_of_mem_dropLast hmem)) (notMem_tail hnB hb)

/-! ## Pieces of chains -/

/-- The nodes from `f` to `g` are left out. -/
def unlink (s : Links α) (f g : α) : Links α := s.join (s.prev f) (s.next g)

/-- The nodes from `f` to `g` are put in front of `b`. -/
def link (s : Links α) (b f g : α) : Links α := (s.join (s.prev b) f).join g b

/-- A piece is taken out of a chain. -/
theorem Chain.unlink (h : s.Chain (A ++ (F ++ B))) (hnodup : (A ++ (F ++ B)).Nodup)
    (hF : Ends F f g) (ha : A.getLast? = some a) (hb : B.head? = some b) :
    s.unlink f g = s.join a b ∧ (s.unlink f g).Chain (A ++ B) ∧ (s.unlink f g).Chain F := by
  obtain ⟨-, hnFB, hdisj⟩ := List.nodup_append'.1 hnodup
  obtain ⟨-, -, hdisj'⟩ := List.nodup_append'.1 hnFB
  -- `unlink` finds the neighbours of the piece in the links
  have hprev : s.prev f = a := (h.joined ha (by rw [List.head?_append, hF.head]; rfl)).2
  have hnext : s.next g = b := (h.right.joined hF.last hb).1
  have heq : s.unlink f g = s.join a b := by rw [Links.unlink, hprev, hnext]
  rw [heq]
  refine ⟨rfl, h.left.join h.right.right ?_ ha hb, ?_⟩
  · exact hnodup.sublist ((List.Sublist.refl A).append (List.sublist_append_right F B))
  · -- neither neighbour is in the piece
    refine h.right.left.of_sameOff (l := [a, b])
      (sameOff_join List.mem_cons_self (List.mem_cons_of_mem _ List.mem_cons_self)) ?_
    intro e he hmem
    rcases List.mem_cons.1 hmem with rfl | hmem
    · exact hdisj (List.mem_of_getLast? ha) (List.mem_append_left B he)
    · obtain rfl := List.mem_singleton.1 hmem
      exact hdisj' he (List.mem_of_head? hb)

/-- A chain is put into another one as a piece. -/
theorem Chain.link (h : s.Chain (A ++ B)) (hc : s.Chain F) (hnodup : (A ++ (F ++ B)).Nodup)
    (hF : Ends F f g) (ha : A.getLast? = some a) (hb : B.head? = some b) :
    s.link b f g = (s.join a f).join g b ∧ (s.link b f g).Chain (A ++ (F ++ B)) := by
  obtain ⟨-, hnFB, hdisj⟩ := List.nodup_append'.1 hnodup
  obtain ⟨-, -, hdisj'⟩ := List.nodup_append'.1 hnFB
  have hprev : s.prev b = a := (h.joined ha hb).2
  have heq : s.link b f g = (s.join a f).join g b := by rw [Links.link, hprev]
  have hnAF : (A ++ F).Nodup :=
    hnodup.sublist ((List.Sublist.refl A).append (List.sublist_append_left F B))
  have hfirst := h.left.join hc hnAF ha hF.head
  -- the first join leaves the second part alone
  have hB : (s.join a f).Chain B := by
    refine h.right.of_sameOff (l := [a, f])
      (sameOff_join List.mem_cons_self (List.mem_cons_of_mem _ List.mem_cons_self)) ?_
    intro e he hmem
    rcases List.mem_cons.1 hmem with rfl | hmem
    · exact hdisj (List.mem_of_getLast? ha) (List.mem_append_right F he)
    · obtain rfl := List.mem_singleton.1 hmem
      exact hdisj' (List.mem_of_head? hF.head) he
  have hlast : (A ++ F).getLast? = some g := by
    rw [List.getLast?_append, hF.last]
    rfl
  rw [heq]
  refine ⟨rfl, ?_⟩
  rw [← List.append_assoc] at hnodup ⊢
  exact hfirst.join hB hnodup hlast hb

end Links

end Berk162
