import Mathlib.Data.List.Nodup
import Mathlib.Tactic

/-!
# Store — records at addresses

A `Store` is a list of records, each at an address of its own.  A new record gets an address that
no record has had, so that an address names one record for ever: one that outlives its record names
none.

We provide, beside the operations, how they change `get` and how many records satisfy a test.
-/

namespace Berk162

structure Store (α : Type*) where
  cells : List (Nat × α)
  /-- The next address. -/
  next : Nat
  fresh : ∀ e ∈ cells, e.1 < next
  nodup : (cells.map Prod.fst).Nodup

namespace Store

variable {α : Type*}

def empty : Store α := ⟨[], 0, by simp, by simp⟩

/-- The record at address `p`. -/
def get (st : Store α) (p : Nat) : Option α := st.cells.lookup p

/-- A new record, in front of the others, at the address `st.next`. -/
def alloc (st : Store α) (a : α) : Store α where
  cells := (st.next, a) :: st.cells
  next := st.next + 1
  fresh := by
    intro e he
    rcases List.mem_cons.1 he with rfl | he
    · exact Nat.lt_succ_self _
    · exact Nat.lt_succ_of_lt (st.fresh e he)
  nodup := by
    rw [List.map_cons, List.nodup_cons]
    refine ⟨fun hmem => ?_, st.nodup⟩
    rcases List.mem_map.1 hmem with ⟨e, he, heq⟩
    have hlt := st.fresh e he
    omega

/-- The record at `p` becomes `a`. -/
def set (st : Store α) (p : Nat) (a : α) : Store α where
  cells := st.cells.map fun e => if e.1 = p then (p, a) else e
  next := st.next
  fresh := by
    intro e he
    rcases List.mem_map.1 he with ⟨d, hd, rfl⟩
    have hlt := st.fresh d hd
    split
    · rename_i hp
      exact hp ▸ hlt
    · exact hlt
  nodup := by
    have hfst : (Prod.fst ∘ fun e : Nat × α => if e.1 = p then (p, a) else e) = Prod.fst := by
      funext e
      by_cases he : e.1 = p <;> simp [he]
    rw [List.map_map, hfst]
    exact st.nodup

/-- The record at `p` is freed. -/
def erase (st : Store α) (p : Nat) : Store α where
  cells := st.cells.filter fun e => e.1 ≠ p
  next := st.next
  fresh := fun e he => st.fresh e (List.mem_filter.1 he).1
  nodup := st.nodup.sublist (List.filter_sublist.map _)

/-- How many records satisfy `f`. -/
def count (st : Store α) (f : α → Bool) : Nat := st.cells.countP fun e => f e.2

variable {st : Store α} {p q : Nat} {a b : α} {f : α → Bool}

/-- The record at `p` has its place in the list, and no other has the address. -/
theorem exists_split (h : st.get p = some b) : ∃ l l', st.cells = l ++ (p, b) :: l' ∧
    (∀ e ∈ l, e.1 ≠ p) ∧ ∀ e ∈ l', e.1 ≠ p := by
  rcases List.lookup_eq_some_iff.1 h with ⟨l, l', hcells, hl⟩
  refine ⟨l, l', hcells, fun e he heq => bne_iff_ne.1 (hl e he) heq.symm, fun e he heq => ?_⟩
  have hnodup := st.nodup
  rw [hcells, List.map_append, List.map_cons] at hnodup
  have htail := (List.nodup_cons.1 (List.nodup_append.1 hnodup).2.1).1
  exact htail (List.mem_map.2 ⟨e, he, heq⟩)

theorem get_eq_some_iff : st.get p = some a ↔ (p, a) ∈ st.cells := by
  constructor
  · intro h
    rcases exists_split h with ⟨l, l', hcells, _⟩
    rw [hcells]
    simp
  · intro h
    rcases List.append_of_mem h with ⟨l, l', hcells⟩
    refine List.lookup_eq_some_iff.2 ⟨l, l', hcells, fun e he => bne_iff_ne.2 fun heq => ?_⟩
    have hnodup := st.nodup
    rw [hcells, List.map_append, List.map_cons] at hnodup
    exact (List.nodup_append.1 hnodup).2.2 e.1 (List.mem_map_of_mem he) p
      List.mem_cons_self heq.symm

theorem get_lt (h : st.get p = some a) : p < st.next := st.fresh _ (get_eq_some_iff.1 h)

@[simp] theorem get_empty : (empty : Store α).get p = none := rfl

theorem get_next : st.get st.next = none := by
  cases h : st.get st.next with
  | none =>
      rfl
  | some a =>
      exact absurd (get_lt h) (Nat.lt_irrefl _)

/-! ## Records after an operation -/

@[simp] theorem get_alloc_self : (st.alloc a).get st.next = some a := by
  simp [get, alloc]

theorem get_alloc_of_ne (h : q ≠ st.next) : (st.alloc a).get q = st.get q := by
  have hq : (q == st.next) = false := beq_eq_false_iff_ne.2 h
  simp [get, alloc, List.lookup_cons, hq]

theorem get_alloc_eq_some : (st.alloc a).get q = some b ↔
    (q = st.next ∧ b = a) ∨ st.get q = some b := by
  by_cases hq : q = st.next
  · subst hq
    simp [get_next, eq_comm]
  · simp [get_alloc_of_ne hq, hq]

theorem set_cells {l l' : List (Nat × α)} (h : st.cells = l ++ (p, b) :: l') (hl : ∀ e ∈ l, e.1 ≠ p)
    (hl' : ∀ e ∈ l', e.1 ≠ p) : (st.set p a).cells = l ++ (p, a) :: l' := by
  have hsame : ∀ l : List (Nat × α), (∀ e ∈ l, e.1 ≠ p) →
      l.map (fun e => if e.1 = p then (p, a) else e) = l := by
    intro l hl
    calc
      l.map (fun e => if e.1 = p then (p, a) else e) = l.map id :=
        List.map_congr_left fun e he => if_neg (hl e he)
      _ = l := List.map_id l
  simp only [set, h, List.map_append, List.map_cons, hsame l hl, hsame l' hl', if_true]

theorem erase_cells {l l' : List (Nat × α)} (h : st.cells = l ++ (p, b) :: l')
    (hl : ∀ e ∈ l, e.1 ≠ p) (hl' : ∀ e ∈ l', e.1 ≠ p) : (st.erase p).cells = l ++ l' := by
  have hsame : ∀ l : List (Nat × α), (∀ e ∈ l, e.1 ≠ p) →
      l.filter (fun e => decide (e.1 ≠ p)) = l := fun l hl =>
    List.filter_eq_self.2 fun e he => decide_eq_true (hl e he)
  simp only [erase, h, List.filter_append, hsame l hl]
  rw [List.filter_cons_of_neg (by simp), hsame l' hl']

theorem get_set_self (h : st.get p = some b) : (st.set p a).get p = some a := by
  rcases exists_split h with ⟨l, l', hcells, hl, hl'⟩
  rw [get_eq_some_iff, set_cells hcells hl hl']
  simp

theorem get_set_of_ne (h : q ≠ p) : (st.set p a).get q = st.get q := by
  refine Option.ext fun b => ?_
  rw [get_eq_some_iff, get_eq_some_iff]
  simp only [set, List.mem_map]
  constructor
  · rintro ⟨e, he, heq⟩
    by_cases hep : e.1 = p
    · rw [if_pos hep] at heq
      exact absurd (congrArg Prod.fst heq).symm h
    · rw [if_neg hep] at heq
      exact heq ▸ he
  · intro hb
    exact ⟨(q, b), hb, if_neg h⟩

@[simp] theorem get_erase_self : (st.erase p).get p = none := by
  cases h : (st.erase p).get p with
  | none =>
      rfl
  | some a =>
      have hmem := (List.mem_filter.1 (get_eq_some_iff.1 h)).2
      simp at hmem

theorem get_erase_of_ne (h : q ≠ p) : (st.erase p).get q = st.get q := by
  refine Option.ext fun b => ?_
  rw [get_eq_some_iff, get_eq_some_iff]
  simp [erase, h]

theorem get_erase_eq_some : (st.erase p).get q = some b ↔ q ≠ p ∧ st.get q = some b := by
  by_cases hq : q = p
  · subst hq
    simp
  · simp [get_erase_of_ne hq, hq]

/-! ## Counting -/

@[simp] theorem count_empty : (empty : Store α).count f = 0 := rfl

theorem count_alloc : (st.alloc a).count f = st.count f + if f a then 1 else 0 := by
  simp [count, alloc, List.countP_cons]

theorem count_set (h : st.get p = some b) :
    (st.set p a).count f + (if f b then 1 else 0) = st.count f + if f a then 1 else 0 := by
  rcases exists_split h with ⟨l, l', hcells, hl, hl'⟩
  rw [count, count, set_cells hcells hl hl', hcells]
  simp only [List.countP_append, List.countP_cons]
  omega

theorem count_erase (h : st.get p = some b) :
    (st.erase p).count f + (if f b then 1 else 0) = st.count f := by
  rcases exists_split h with ⟨l, l', hcells, hl, hl'⟩
  rw [count, count, erase_cells hcells hl hl', hcells]
  simp only [List.countP_append, List.countP_cons]
  omega

theorem count_mono {g : α → Bool} (h : ∀ a, f a = true → g a = true) : st.count f ≤ st.count g :=
  List.countP_mono_left fun e _ => h e.2

theorem count_congr {g : α → Bool} (h : ∀ p a, st.get p = some a → f a = g a) :
    st.count f = st.count g := by
  refine List.countP_congr fun c hc => ?_
  rw [h c.1 c.2 (get_eq_some_iff.2 hc)]

theorem count_pos (h : st.get p = some a) (hf : f a = true) : 0 < st.count f :=
  List.countP_pos_iff.2 ⟨(p, a), get_eq_some_iff.1 h, hf⟩

theorem count_eq_zero (h : ∀ p a, st.get p = some a → f a = false) : st.count f = 0 := by
  rw [count, List.countP_eq_zero]
  intro e he
  rw [h e.1 e.2 (get_eq_some_iff.2 he)]
  simp

end Store

end Berk162
