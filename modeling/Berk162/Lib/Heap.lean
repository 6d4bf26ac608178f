import Mathlib.Data.List.Perm.Basic
import Mathlib.Data.List.Range
import Mathlib.Logic.Equiv.Basic
import Mathlib.Order.Defs.Unbundled
import Mathlib.Tactic

/-!
# Heap — binary heaps in arrays, and sorting with them

An array is a function on indices, of which a heap uses those below `n`; the children of `i` are
`2 * i + 1` and `2 * i + 2`.  `Sift` is what floating an element down may do, whichever of two equal
children is taken.

We provide:

* `Sift.heapFrom` — sifting makes a heap of two heaps and the element above them;
* `HeapFrom.root` — the root of a heap is its greatest element;
* `Selected.step` — the root goes behind the heap, and what comes in its place is sifted;
* `Rearranged.perm` — what exchanges of elements leave is a permutation.
-/

namespace Berk162

variable {α : Type*} {le : α → α → Prop} {f g h : Nat → α} {n k i j c d p : Nat}

/-! ## Rearrangements -/

/-- `g` has the elements of `f`, in other places below `n`. -/
def Rearranged (n : Nat) (f g : Nat → α) : Prop :=
  ∃ σ : Equiv.Perm Nat, g = f ∘ σ ∧ ∀ j, n ≤ j → σ j = j

theorem Rearranged.refl (n : Nat) (f : Nat → α) : Rearranged n f f := ⟨1, rfl, fun _ _ => rfl⟩

theorem Rearranged.trans (hfg : Rearranged n f g) (hgh : Rearranged n g h) : Rearranged n f h := by
  obtain ⟨σ, rfl, hσ⟩ := hfg
  obtain ⟨τ, rfl, hτ⟩ := hgh
  refine ⟨τ.trans σ, rfl, fun j hj => ?_⟩
  rw [Equiv.trans_apply, hτ j hj, hσ j hj]

/-- Two elements change places. -/
theorem rearranged_swap (hi : i < n) (hc : c < n) : Rearranged n f (f ∘ Equiv.swap i c) := by
  refine ⟨Equiv.swap i c, rfl, fun j hj => ?_⟩
  exact Equiv.swap_apply_of_ne_of_ne (by omega) (by omega)

theorem Rearranged.eq_above (hfg : Rearranged n f g) (hj : n ≤ j) : g j = f j := by
  obtain ⟨σ, rfl, hσ⟩ := hfg
  rw [Function.comp_apply, hσ j hj]

/-- What is below `n` comes from below `n`. -/
theorem Rearranged.exists_below (hfg : Rearranged n f g) (hj : j < n) : ∃ i, i < n ∧ g j = f i := by
  obtain ⟨σ, rfl, hσ⟩ := hfg
  refine ⟨σ j, ?_, rfl⟩
  by_contra hle
  have hfix := σ.injective (hσ (σ j) (Nat.le_of_not_lt hle))
  omega

theorem Rearranged.perm (hfg : Rearranged n f g) :
    ((List.range n).map g).Perm ((List.range n).map f) := by
  obtain ⟨σ, rfl, hσ⟩ := hfg
  -- the indices are exchanged among those below `n`
  have hrange : ((List.range n).map σ).Perm (List.range n) := by
    refine (List.perm_ext_iff_of_nodup ?_ List.nodup_range).2 fun j => ?_
    · exact (List.nodup_map_iff σ.injective).2 List.nodup_range
    · rw [List.mem_map, List.mem_range]
      constructor
      · rintro ⟨i, hi, rfl⟩
        by_contra hle
        have hfix := σ.injective (hσ (σ i) (Nat.le_of_not_lt hle))
        rw [List.mem_range] at hi
        omega
      · intro hj
        refine ⟨σ.symm j, ?_, σ.apply_symm_apply j⟩
        rw [List.mem_range]
        by_contra hle
        have hfix := hσ (σ.symm j) (Nat.le_of_not_lt hle)
        rw [σ.apply_symm_apply] at hfix
        omega
  have hmap := hrange.map f
  rwa [List.map_map] at hmap

/-! ## Heaps -/

def IsChild (c i : Nat) : Prop := c = 2 * i + 1 ∨ c = 2 * i + 2

theorem IsChild.lt (hc : IsChild c i) : i < c := by
  rcases hc with rfl | rfl
  · omega
  · omega

theorem IsChild.parent_eq (hc : IsChild c i) (hc' : IsChild c j) : i = j := by
  rcases hc with rfl | rfl
  · rcases hc' with h | h
    · omega
    · omega
  · rcases hc' with h | h
    · omega
    · omega

/-- No child is above the element `i`. -/
def AboveChildren (le : α → α → Prop) (n : Nat) (f : Nat → α) (i : Nat) : Prop :=
  ∀ c, IsChild c i → c < n → le (f c) (f i)

/-- The elements from `k` on are heaps. -/
def HeapFrom (le : α → α → Prop) (k n : Nat) (f : Nat → α) : Prop :=
  ∀ i, k ≤ i → AboveChildren le n f i

/-- The elements from `k` on are heaps, but for `i`, which may be below its children. -/
structure HeapBut (le : α → α → Prop) (k n i : Nat) (f : Nat → α) : Prop where
  others : ∀ j, k ≤ j → j ≠ i → AboveChildren le n f j
  grand : ∀ p c, k ≤ p → IsChild i p → IsChild c i → c < n → le (f c) (f p)

/-- The element `i` is exchanged with a child that is above it and not below the other, as long as
there is one. -/
inductive Sift (le : α → α → Prop) (n : Nat) : (Nat → α) → Nat → (Nat → α) → Prop
  | stay (f : Nat → α) (i : Nat) : AboveChildren le n f i → Sift le n f i f
  | down (f g : Nat → α) (i c : Nat) : IsChild c i → c < n → ¬ le (f c) (f i) →
      (∀ d, IsChild d i → d < n → le (f d) (f c)) → Sift le n (f ∘ Equiv.swap i c) c g →
      Sift le n f i g

theorem Sift.rearranged (hs : Sift le n f i g) (hi : i < n) : Rearranged n f g := by
  induction hs with
  | stay => exact Rearranged.refl _ _
  | down _ _ _ _ _ hc _ _ _ ih => exact (rearranged_swap hi hc).trans (ih hc)

/-- The elements of the second half have no children. -/
theorem heapFrom_half (f : Nat → α) (n : Nat) : HeapFrom le (n / 2) n f := by
  intro i hi c hc hn
  rcases hc with rfl | rfl
  · omega
  · omega

/-- An element in front of a heap may be out of place. -/
theorem HeapFrom.heapBut (hf : HeapFrom le (k + 1) n f) : HeapBut le k n k f where
  others j hj hne := hf j (by omega)
  grand p c hp hkp _ _ := by
    have hlt := hkp.lt
    omega

section Total

variable [Std.Total le]

/-- The element that is out of place moves down one level. -/
theorem HeapBut.swap (hf : HeapBut le k n i f) (hk : k ≤ i) (hc : IsChild c i) (hn : c < n)
    (hgt : ¬ le (f c) (f i)) (hmax : ∀ d, IsChild d i → d < n → le (f d) (f c)) :
    HeapBut le k n c (f ∘ Equiv.swap i c) := by
  have hlt := hc.lt
  have hat : (f ∘ Equiv.swap i c) i = f c := congrArg f (Equiv.swap_apply_left i c)
  have hoff : ∀ j, j ≠ i → j ≠ c → (f ∘ Equiv.swap i c) j = f j := fun j hi hj =>
    congrArg f (Equiv.swap_apply_of_ne_of_ne hi hj)
  constructor
  · intro j hj hne d hd hdn
    have hdj := hd.lt
    by_cases hji : j = i
    · -- `c` was the greatest of the children, and it is above what was at `i`
      subst hji
      rw [hat]
      by_cases hdc : d = c
      · have hback : (f ∘ Equiv.swap j c) d = f j := by
          rw [hdc]
          exact congrArg f (Equiv.swap_apply_right j c)
        rw [hback]
        exact (total_of le (f j) (f c)).resolve_right hgt
      · rw [hoff d (by omega) hdc]
        exact hmax d hd hdn
    · rw [hoff j hji hne]
      by_cases hdi : d = i
      · -- a child of `i` is now in its place
        subst hdi
        rw [hat]
        exact hf.grand j c hj hd hc hn
      · have hdc : d ≠ c := fun h => hji (hd.parent_eq (h ▸ hc))
        rw [hoff d hdi hdc]
        exact hf.others j hj hji d hd hdn
  · -- what was at `c` is above its children, and it is now at their grandparent
    intro p d hp hcp hd hdn
    obtain rfl := hcp.parent_eq hc
    have hdc := hd.lt
    rw [hat, hoff d (by omega) (by omega)]
    exact hf.others c (by omega) (by omega) d hd hdn

/-- Sifting down the element that is out of place makes a heap. -/
theorem Sift.heapFrom (hs : Sift le n f i g) (hf : HeapBut le k n i f) (hk : k ≤ i) :
    HeapFrom le k n g := by
  induction hs with
  | stay f i hstay =>
      intro j hj
      by_cases hji : j = i
      · rw [hji]
        exact hstay
      · exact hf.others j hj hji
  | down f g i c hc hn hgt hmax _ ih =>
      have hlt := hc.lt
      exact ih (hf.swap hk hc hn hgt hmax) (by omega)

end Total

/-! ## Selection -/

/-- The first `m` elements are a heap, and behind them are the greatest in order. -/
structure Selected (le : α → α → Prop) (m n : Nat) (f : Nat → α) : Prop where
  heap : HeapFrom le 0 m f
  sorted : ∀ i j, m ≤ i → i ≤ j → j < n → le (f i) (f j)
  above : ∀ i j, i < m → m ≤ j → j < n → le (f i) (f j)

theorem HeapFrom.selected (hf : HeapFrom le 0 n f) : Selected le n n f where
  heap := hf
  sorted i j hi hij hj := by omega
  above i j _ hj hn := by omega

section Order

variable [IsTrans α le] [Std.Total le]

theorem HeapFrom.root (hf : HeapFrom le 0 n f) (hi : i < n) : le (f i) (f 0) := by
  -- along the path from `i` up to the root
  induction i using Nat.strong_induction_on with
  | _ i ih =>
      rcases Nat.eq_zero_or_pos i with rfl | hpos
      · exact (total_of le (f 0) (f 0)).elim id id
      · have hchild : IsChild i ((i - 1) / 2) := by
          unfold IsChild
          omega
        have hlt := hchild.lt
        exact trans_of le (hf _ (Nat.zero_le _) i hchild hi) (ih _ hlt (by omega))

/-- The greatest element of the heap is exchanged with its last, which is then sifted down. -/
theorem Selected.step {m : Nat} (hf : Selected le (m + 1) n f) (hm : 0 < m)
    (hs : Sift le m (f ∘ Equiv.swap 0 m) 0 g) : Selected le m n g := by
  have hfirst : (f ∘ Equiv.swap 0 m) 0 = f m := congrArg f (Equiv.swap_apply_left 0 m)
  have hlast : (f ∘ Equiv.swap 0 m) m = f 0 := congrArg f (Equiv.swap_apply_right 0 m)
  have hoff : ∀ j, j ≠ 0 → j ≠ m → (f ∘ Equiv.swap 0 m) j = f j := fun j hj hj' =>
    congrArg f (Equiv.swap_apply_of_ne_of_ne hj hj')
  have hroot : ∀ i, i < m + 1 → le (f i) (f 0) := fun i hi => hf.heap.root hi
  -- only the new root is out of place
  have hbut : HeapBut le 0 m 0 (f ∘ Equiv.swap 0 m) := by
    constructor
    · intro j _ hj c hc hcm
      have hlt := hc.lt
      rw [hoff j hj (by omega), hoff c (by omega) (by omega)]
      exact hf.heap j (Nat.zero_le _) c hc (by omega)
    · intro p c _ hp _ _
      have hlt := hp.lt
      omega
  have hre := hs.rearranged hm
  have habove : ∀ i j, i < m → m ≤ j → j < n →
      le ((f ∘ Equiv.swap 0 m) i) ((f ∘ Equiv.swap 0 m) j) := by
    intro i j hi hj hjn
    have hfrom : ∃ l, l < m + 1 ∧ (f ∘ Equiv.swap 0 m) i = f l := by
      by_cases hi0 : i = 0
      · exact ⟨m, by omega, by rw [hi0, hfirst]⟩
      · exact ⟨i, by omega, hoff i hi0 (by omega)⟩
    obtain ⟨l, hl, hil⟩ := hfrom
    rw [hil]
    -- the old root, or one of those that were behind the heap before
    by_cases hjm : j = m
    · rw [hjm, hlast]
      exact hroot l hl
    · rw [hoff j (by omega) hjm]
      exact hf.above l j hl (by omega) hjn
  constructor
  · exact hs.heapFrom hbut (Nat.le_refl 0)
  · intro i j hi hij hj
    rw [hre.eq_above hi, hre.eq_above (Nat.le_trans hi hij)]
    by_cases him : i = m
    · rw [him, hlast]
      by_cases hjm : j = m
      · rw [hjm, hlast]
        exact hroot 0 (Nat.succ_pos m)
      · rw [hoff j (by omega) hjm]
        exact hf.above 0 j (Nat.succ_pos m) (by omega) hj
    · rw [hoff i (by omega) him, hoff j (by omega) (by omega)]
      exact hf.sorted i j (by omega) hij hj
  · -- sifting moves the elements of the heap among themselves
    intro i j hi hj hjn
    obtain ⟨l, hl, hil⟩ := hre.exists_below hi
    rw [hil, hre.eq_above hj]
    exact habove l j hl hj hjn

end Order

end Berk162
