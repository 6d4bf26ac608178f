import Mathlib.Algebra.Group.Fin.Basic
import Mathlib.Tactic

/-!
# RingBuffer — a circular buffer as a queue

A circular buffer is an array with the position that is written next and the position that is read
next.  It is empty when the two agree, and full when one more write would make them agree, so one
cell always stays free.

We provide:

* `RingBuffer.contents` — the queue that the buffer stands for;
* `contents_put`, `contents_get` — writing appends to the queue, reading takes its first element;
* `isEmpty_iff`, `length_contents_lt` — what the two positions tell about the queue.
-/

namespace Berk162

universe u

/-- A circular buffer of `n` cells. -/
structure RingBuffer (α : Type u) (n : Nat) where
  buf : Fin n → α
  head : Fin n
  tail : Fin n

namespace RingBuffer

variable {α : Type u} {n : Nat} [NeZero n]

/-- The position after `pos`. -/
def next (pos : Fin n) : Fin n := pos + 1

def isEmpty (r : RingBuffer α n) : Bool := r.head == r.tail

def isFull (r : RingBuffer α n) : Bool := next r.head == r.tail

/-- Writes `a` at the head. -/
def put (r : RingBuffer α n) (a : α) : RingBuffer α n :=
  { r with buf := Function.update r.buf r.head a, head := next r.head }

/-- Skips the element at the tail. -/
def get (r : RingBuffer α n) : RingBuffer α n := { r with tail := next r.tail }

/-- The elements from the tail to the head. -/
def contents (r : RingBuffer α n) : List α :=
  (List.range (r.head - r.tail).val).map fun i => r.buf (r.tail + Fin.ofNat n i)

variable {r : RingBuffer α n}

theorem isEmpty_iff_contents : r.isEmpty = true ↔ r.contents = [] := by
  rw [isEmpty, beq_iff_eq, contents, List.map_eq_nil_iff, List.range_eq_nil, Fin.val_eq_zero_iff,
    sub_eq_zero]

theorem length_contents_lt (r : RingBuffer α n) : r.contents.length < n := by
  rw [contents, List.length_map, List.length_range]
  exact (r.head - r.tail).isLt

/-- A step that does not arrive at zero adds one to the value. -/
theorem val_add_one {k : Fin n} (h : k + 1 ≠ 0) : (k + 1).val = k.val + 1 := by
  have hn : 0 < n := Nat.pos_of_ne_zero (NeZero.ne n)
  have hk := k.isLt
  rw [Fin.val_add]
  by_cases hlast : k.val + 1 = n
  · refine absurd ?_ h
    apply Fin.ext
    rw [Fin.val_add]
    simp [hlast]
  · have hlt : k.val + 1 < n := by omega
    have hone : ((1 : Fin n) : Nat) = 1 := by
      rw [Fin.val_one']
      exact Nat.mod_eq_of_lt (by omega)
    rw [hone, Nat.mod_eq_of_lt hlt]

theorem contents_put (a : α) (h : r.isFull = false) : (r.put a).contents = r.contents ++ [a] := by
  have hfull : r.head - r.tail + 1 ≠ 0 := by
    intro hz
    refine absurd h ?_
    have hnext : r.head + 1 - r.tail = 0 := by rw [add_sub_right_comm, hz]
    simpa [isFull, next] using sub_eq_zero.1 hnext
  have hlen : (next r.head - r.tail).val = (r.head - r.tail).val + 1 := by
    rw [← val_add_one hfull, next, add_sub_right_comm]
  simp only [contents, put, hlen, List.range_succ, List.map_append, List.map_cons, List.map_nil]
  congr 1
  · refine List.map_congr_left fun i hi => ?_
    rw [Function.update_of_ne]
    -- a cell before the head is not the head
    intro heq
    have hval : Fin.ofNat n i = r.head - r.tail := by rw [← heq, add_sub_cancel_left]
    have hi' := List.mem_range.1 hi
    have hmod : i % n = (r.head - r.tail).val := by rw [← hval, Fin.val_ofNat]
    rw [Nat.mod_eq_of_lt (hi'.trans (r.head - r.tail).isLt)] at hmod
    omega
  · simp

theorem contents_get (h : r.isEmpty = false) : r.contents = r.buf r.tail :: r.get.contents := by
  have hne : r.head - r.tail ≠ 0 := by
    intro hz
    simp [isEmpty, sub_eq_zero.1 hz] at h
  have hlen : (r.head - r.tail).val = (r.head - next r.tail).val + 1 := by
    have hpred : r.head - next r.tail + 1 = r.head - r.tail := by
      rw [next, sub_add_eq_add_sub, add_sub_add_right_eq_sub]
    rw [← val_add_one (by rw [hpred]; exact hne), hpred]
  simp only [contents, get, hlen, List.range_succ_eq_map, List.map_cons, List.map_map]
  congr 1
  · simp
  · refine List.map_congr_left fun i _ => ?_
    have hcast : Fin.ofNat n (i + 1) = 1 + Fin.ofNat n i := by
      apply Fin.ext
      simp [Fin.val_add, Nat.add_comm]
    simp only [Function.comp_apply, next, Nat.succ_eq_add_one, hcast, add_assoc]

/-- What was written while the buffer was not full is there to be read. -/
theorem isEmpty_put (a : α) (h : r.isFull = false) : (r.put a).isEmpty = false := by
  rw [← Bool.not_eq_true, isEmpty_iff_contents, contents_put a h]
  simp

/-- After a read there is room for a write. -/
theorem isFull_get (h : r.isEmpty = false) : r.get.isFull = false := by
  have hne : r.head ≠ r.tail := by simpa [isEmpty] using h
  have hnext : next r.head ≠ next r.tail := fun heq => hne (add_right_cancel heq)
  simpa [isFull, get] using hnext

/-- A buffer is full when one cell is left. -/
theorem isFull_iff_length : r.isFull = true ↔ r.contents.length = n - 1 := by
  have hn : 0 < n := Nat.pos_of_ne_zero (NeZero.ne n)
  have hlt := (r.head - r.tail).isLt
  have hlen : r.contents.length = (r.head - r.tail).val := by
    rw [contents, List.length_map, List.length_range]
  rw [hlen]
  have hiff : r.isFull = true ↔ r.head - r.tail + 1 = 0 := by
    rw [isFull, next, beq_iff_eq, ← sub_eq_zero, add_sub_right_comm]
  rw [hiff]
  constructor
  · intro hz
    -- otherwise one more would not wrap
    by_contra hne
    have hval := congrArg Fin.val hz
    rw [Fin.val_add, Fin.val_one', Fin.val_zero, Nat.add_mod_mod, Nat.mod_eq_of_lt (by omega)] at hval
    omega
  · intro hlast
    apply Fin.ext
    rw [Fin.val_add, Fin.val_one', Fin.val_zero, Nat.add_mod_mod, hlast, Nat.sub_add_cancel hn,
      Nat.mod_self]

/-- A full buffer of more than one cell holds something. -/
theorem isEmpty_of_isFull (hn : 1 < n) (h : r.isFull = true) : r.isEmpty = false := by
  have hnext : r.head + 1 = r.tail := by simpa [isFull, next] using h
  have hone : (1 : Fin n) ≠ 0 := by
    intro heq
    have hval := congrArg Fin.val heq
    rw [Fin.val_one', Nat.mod_eq_of_lt hn] at hval
    exact Nat.one_ne_zero hval
  have hne : r.head ≠ r.tail := by
    rw [← hnext]
    simpa using Ne.symm hone
  simpa [isEmpty] using hne

end RingBuffer

end Berk162
