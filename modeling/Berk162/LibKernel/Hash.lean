import Berk162.Lib.Machine
import Mathlib.Data.List.Nodup

/-!
# Hash — `lib/kernel/hash.c`

A hash table is an array of lists of elements.  The lists are intrusive, so an element is a pointer;
what `hash` and `less` compute from an element does not change as long as it is in the table.  A list
is the sequence of its elements here; `HashLinks` has the links between them.

`none` is a loop that does not end, a failed assertion, or a use of memory beyond the array.
-/

namespace Berk162

/-- `struct hash`. -/
structure Hash (α : Type) where
  elem_cnt : Nat
  bucket_cnt : Nat
  buckets : Nat → List α
  hash : α → BitVec 32
  less : α → α → Bool

/-- `sizeof (struct list)`. -/
def sizeof_list : Nat := 16

/-- `turn_off_least_1bit`. -/
def turn_off_least_1bit (x : Nat) : Nat := x &&& size_sub x 1

def is_power_of_2 (x : Nat) : Bool := decide (x ≠ 0) && decide (turn_off_least_1bit x = 0)

theorem turn_off_least_1bit_lt {x : Nat} (hx : x ≠ 0) (hlt : x < WORD) : turn_off_least_1bit x < x := by
  have hle : x &&& (x - 1) ≤ x - 1 := Nat.and_le_right
  have hsub : size_sub x 1 = x - 1 := size_sub_eq (Nat.pos_of_ne_zero hx) hlt
  rw [turn_off_least_1bit, hsub]
  omega

/-- The loop of `rehash` that makes the number of buckets a power of 2.  It would not end for 0;
a number from `WORD` on is not a `size_t`. -/
def round_down (x : Nat) : Option Nat :=
  if is_power_of_2 x then some x
  else if _h : x = 0 ∨ WORD ≤ x then none
  else round_down (turn_off_least_1bit x)
termination_by x
decreasing_by exact turn_off_least_1bit_lt (fun h0 => _h (Or.inl h0)) (by omega)

namespace Hash

variable {α : Type}

/-- `find_bucket`. -/
def find_bucket (h : Hash α) (e : α) : Nat := (h.hash e).toNat &&& size_sub h.bucket_cnt 1

/-- Elements that neither is less than the other. -/
def same (h : Hash α) (e e' : α) : Bool := !h.less e e' && !h.less e' e

/-- `find_elem`. -/
def find_elem (h : Hash α) (bucket : Nat) (e : α) : Option α :=
  (h.buckets bucket).find? fun hi => h.same hi e

/-- `list_push_front`, on a bucket. -/
def push_front (h : Hash α) (bucket : Nat) (e : α) : Hash α :=
  { h with buckets := Function.update h.buckets bucket (e :: h.buckets bucket) }

/-- `insert_elem`. -/
def insert_elem (h : Hash α) (bucket : Nat) (e : α) : Hash α :=
  { h.push_front bucket e with elem_cnt := size_add h.elem_cnt 1 }

/-- The body of the loop in `rehash`, for an element that has been taken out of its old list. -/
def move_elem (h : Hash α) (e : α) : Hash α := h.push_front (h.find_bucket e) e

/-- `rehash`.  `ok` tells whether `malloc` finds memory; for 0 bytes it does not. -/
def rehash (h : Hash α) (ok : Bool) : Option (Hash α) := do
  let old_buckets := h.buckets
  let old_bucket_cnt := h.bucket_cnt
  let new_bucket_cnt ← round_down (max (h.elem_cnt / 2) 4)
  if new_bucket_cnt = old_bucket_cnt then return h
  let size := size_mul sizeof_list new_bucket_cnt
  if ok = false ∨ size = 0 then return h
  ASSERT (sizeof_list * new_bucket_cnt ≤ size)
  let h := { h with buckets := fun _ => [], bucket_cnt := new_bucket_cnt }
  return (List.range old_bucket_cnt).foldl (fun h i => (old_buckets i).foldl move_elem h) h

/-- `hash_clear`, with what `destructor` is called for, in order. -/
def hash_clear (h : Hash α) (destructor : Bool) : List α × Hash α :=
  (if destructor then (List.range h.bucket_cnt).flatMap h.buckets else [],
    { h with buckets := fun _ => [], elem_cnt := 0 })

/-- `hash_init`. -/
def hash_init (hash : α → BitVec 32) (less : α → α → Bool) (ok : Bool) (buckets : Nat → List α) :
    Option (Hash α) :=
  if ok then some (hash_clear ⟨0, 4, buckets, hash, less⟩ false).2 else none

/-- `hash_insert`: the element that is equal to `new`. -/
def hash_insert (h : Hash α) (new : α) (ok : Bool) : Option (Option α × Hash α) := do
  let bucket := h.find_bucket new
  let old := h.find_elem bucket new
  let h := if old.isNone then h.insert_elem bucket new else h
  let h ← h.rehash ok
  return (old, h)

/-- `hash_find`. -/
def hash_find (h : Hash α) (e : α) : Option α := h.find_elem (h.find_bucket e) e

section
variable [DecidableEq α]

/-- `remove_elem`: `e` is taken out of the list that it is in. -/
def remove_elem (h : Hash α) (e : α) : Hash α :=
  { h with elem_cnt := size_sub h.elem_cnt 1, buckets := fun i => (h.buckets i).erase e }

/-- `hash_replace`. -/
def hash_replace (h : Hash α) (new : α) (ok : Bool) : Option (Option α × Hash α) := do
  let bucket := h.find_bucket new
  let old := h.find_elem bucket new
  let h := match old with
    | some old => h.remove_elem old
    | none => h
  let h := h.insert_elem bucket new
  let h ← h.rehash ok
  return (old, h)

/-- `hash_delete`. -/
def hash_delete (h : Hash α) (e : α) (ok : Bool) : Option (Option α × Hash α) := do
  let found := h.find_elem (h.find_bucket e) e
  match found with
  | some old =>
      let h ← (h.remove_elem old).rehash ok
      return (found, h)
  | none => return (found, h)

end

end Hash

/-! ## Iteration -/

/-- Where an iterator is: at the head of its bucket's list, at an element, or at the end of the
table. -/
inductive IterElem (α : Type)
  | head
  | elem (e : α)
  | null

/-- `struct hash_iterator`, of a given table. -/
structure HashIterator (α : Type) where
  bucket : Nat
  elem : IterElem α

namespace Hash

variable {α : Type}

/-- `hash_first`. -/
def hash_first : HashIterator α := ⟨0, IterElem.head⟩

/-- The loop of `hash_next`; `none` is the tail of the bucket's list. -/
def next_bucket (h : Hash α) (bucket : Nat) (elem : Option α) : HashIterator α :=
  match elem with
  | some e => ⟨bucket, IterElem.elem e⟩
  | none =>
      if bucket + 1 ≥ h.bucket_cnt then ⟨bucket + 1, IterElem.null⟩
      else next_bucket h (bucket + 1) (h.buckets (bucket + 1)).head?
termination_by h.bucket_cnt - bucket

variable [DecidableEq α]

/-- `hash_next`. -/
def hash_next (h : Hash α) (i : HashIterator α) : Option (HashIterator α) :=
  match i.elem with
  | IterElem.head => some (h.next_bucket i.bucket (h.buckets i.bucket).head?)
  | IterElem.elem e =>
      some (h.next_bucket i.bucket ((h.buckets i.bucket).dropWhile (fun e' => e' != e)).tail.head?)
  | IterElem.null => none

/-- The elements that `hash_next` returns until it returns a null pointer, with at most `passes`
calls. -/
def iterate (h : Hash α) : Nat → HashIterator α → Option (List α)
  | 0, _ => none
  | passes + 1, i => do
      let i ← h.hash_next i
      match i.elem with
      | IterElem.elem e =>
          let es ← iterate h passes i
          return e :: es
      | _ => return []

end Hash

end Berk162
