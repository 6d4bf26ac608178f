import Berk162.Lib.Heap
import Berk162.Lib.Machine
import Berk162.Lib.Window

/-!
# Stdlib — `lib/stdlib.c`, sorting and searching

An array is bytes in memory.  The functions are given the object that it is: what they touch outside
of it has no value here, so that a result says that they stayed inside.  `compare` sees the bytes of
two elements, wherever these lie.
-/

namespace Berk162

variable {Aux : Type*} {size : Nat}

/-! ## Memory -/

/-- The bytes of an object. -/
structure Object where
  lo : Nat
  hi : Nat

def Object.load (o : Object) (mem : Nat → UInt8) (p : Nat) : Option UInt8 := do
  ASSERT (o.lo ≤ p ∧ p < o.hi)
  return mem p

def Object.store (o : Object) (mem : Nat → UInt8) (p : Nat) (x : UInt8) : Option (Nat → UInt8) := do
  ASSERT (o.lo ≤ p ∧ p < o.hi)
  return Function.update mem p x

/-- What an element is to `compare`. -/
def Element (size : Nat) : Type := { bytes : List UInt8 // bytes.length = size }

/-- The element that begins at `p`. -/
def element (mem : Nat → UInt8) (size p : Nat) : Element size := ⟨window mem p size, length_window⟩

def Object.element (o : Object) (mem : Nat → UInt8) (size p : Nat) : Option (Element size) := do
  ASSERT (o.lo ≤ p ∧ p + size ≤ o.hi)
  return Berk162.element mem size p

/-! ## Sorting -/

/-- The loop of `do_swap` over the `n` bytes from `i` on. -/
def swap_from (o : Object) (a b : Nat) : Nat → Nat → (Nat → UInt8) → Option (Nat → UInt8)
  | _, 0, mem => some mem
  | i, n + 1, mem => do
      let t ← o.load mem (size_add a i)
      let mem ← o.store mem (size_add a i) (← o.load mem (size_add b i))
      let mem ← o.store mem (size_add b i) t
      swap_from o a b (i + 1) n mem

/-- The pointer to the element with the 1-based index `idx`. -/
def element_ptr (array idx size : Nat) : Nat := size_add array (size_mul (size_sub idx 1) size)

def do_swap (o : Object) (mem : Nat → UInt8) (array a_idx b_idx size : Nat) :
    Option (Nat → UInt8) :=
  swap_from o (element_ptr array a_idx size) (element_ptr array b_idx size) 0 size mem

def do_compare (o : Object) (mem : Nat → UInt8) (array a_idx b_idx : Nat)
    (compare : Element size → Element size → Aux → Int) (aux : Aux) : Option Int := do
  let a ← o.element mem size (element_ptr array a_idx size)
  let b ← o.element mem size (element_ptr array b_idx size)
  return compare a b aux

/-- `max`, or `child` if there is such an element and it is larger. -/
def larger (o : Object) (mem : Nat → UInt8) (array child max cnt : Nat)
    (compare : Element size → Element size → Aux → Int) (aux : Aux) : Option Nat := do
  if child ≤ cnt then
    return if (← do_compare o mem array child max compare aux) > 0 then child else max
  else return max

/-- `heapify`, for as many levels as `fuel` is. -/
def heapify (o : Object) (array cnt : Nat) (compare : Element size → Element size → Aux → Int)
    (aux : Aux) : Nat → (Nat → UInt8) → Nat → Option (Nat → UInt8)
  | 0, _, _ => none
  | fuel + 1, mem, i => do
      let left := size_mul 2 i
      let right := size_add (size_mul 2 i) 1
      let max ← larger o mem array left i cnt compare aux
      let max ← larger o mem array right max cnt compare aux
      if max = i then
        return mem
      else
        let mem ← do_swap o mem array i max size
        heapify o array cnt compare aux fuel mem max

/-- The first loop of `sort`, from `i` down. -/
def build_heap (o : Object) (array cnt : Nat) (compare : Element size → Element size → Aux → Int)
    (aux : Aux) (fuel : Nat) : (Nat → UInt8) → Nat → Option (Nat → UInt8)
  | mem, 0 => some mem
  | mem, i + 1 => do
      let mem ← heapify o array cnt compare aux fuel mem (i + 1)
      build_heap o array cnt compare aux fuel mem i

/-- The second loop of `sort`, from `i` down to 2. -/
def sort_heap (o : Object) (array : Nat) (compare : Element size → Element size → Aux → Int)
    (aux : Aux) (fuel : Nat) : (Nat → UInt8) → Nat → Option (Nat → UInt8)
  | mem, 0 => some mem
  | mem, 1 => some mem
  | mem, i + 2 => do
      let mem ← do_swap o mem array 1 (i + 2) size
      let mem ← heapify o array (i + 1) compare aux fuel mem 1
      sort_heap o array compare aux fuel mem (i + 1)

def sort (o : Object) (fuel : Nat) (mem : Nat → UInt8) (array cnt : Nat)
    (compare : Element size → Element size → Aux → Int) (aux : Aux) : Option (Nat → UInt8) := do
  ASSERT (array ≠ 0 ∨ cnt = 0)
  ASSERT (size > 0)
  let mem ← build_heap o array cnt compare aux fuel mem (cnt / 2)
  sort_heap o array compare aux fuel mem cnt

def compare_thunk (a b : Element size) (aux : Element size → Element size → Int) : Int := aux a b

def qsort (o : Object) (fuel : Nat) (mem : Nat → UInt8) (array cnt : Nat)
    (compare : Element size → Element size → Int) : Option (Nat → UInt8) :=
  sort o fuel mem array cnt compare_thunk compare

/-! ## Searching -/

/-- The loop of `binary_search`, for as many passes as `fuel` is. -/
def search_from (o : Object) (mem : Nat → UInt8) (key : Element size)
    (compare : Element size → Element size → Aux → Int) (aux : Aux) :
    Nat → Nat → Nat → Option (Option Nat)
  | 0, _, _ => none
  | fuel + 1, first, last => do
      if first < last then
        let range := size_sub last first / size
        let middle := size_add first (size_mul (range / 2) size)
        let cmp := compare key (← o.element mem size middle) aux
        if cmp < 0 then search_from o mem key compare aux fuel first middle
        else if cmp > 0 then search_from o mem key compare aux fuel (size_add middle size) last
        else return some middle
      else return none

def binary_search (o : Object) (fuel : Nat) (mem : Nat → UInt8) (key : Element size)
    (array cnt : Nat) (compare : Element size → Element size → Aux → Int) (aux : Aux) :
    Option (Option Nat) :=
  search_from o mem key compare aux fuel array (size_add array (size_mul size cnt))

def bsearch (o : Object) (fuel : Nat) (mem : Nat → UInt8) (key : Element size) (array cnt : Nat)
    (compare : Element size → Element size → Int) : Option (Option Nat) :=
  binary_search o fuel mem key array cnt compare_thunk compare

/-! ## Arrays -/

/-- The greatest `ptrdiff_t`: no object has more bytes. -/
def PTRDIFF_MAX : Nat := 2 ^ 31 - 1

/-- `cnt` elements of `size` bytes lie at `array`, and the pointer past them is not null. -/
structure IsArray (array cnt size : Nat) : Prop where
  size_pos : 0 < size
  object : cnt * size ≤ PTRDIFF_MAX
  inside : array + cnt * size < WORD
  not_null : array ≠ 0 ∨ cnt = 0

/-- The element number `k` of an array. -/
def elem (mem : Nat → UInt8) (array size k : Nat) : Element size :=
  element mem size (array + k * size)

/-- The elements of an array. -/
def elems (mem : Nat → UInt8) (array cnt size : Nat) : List (Element size) :=
  (List.range cnt).map (elem mem array size)

/-- All the bytes of an array. -/
def arrayObject (array cnt size : Nat) : Object := ⟨array, array + cnt * size⟩

/-- `compare` is a `strcmp()`-type comparison of elements that puts all of them in order. -/
structure TotalPreorder (compare : Element size → Element size → Int) : Prop where
  neg_iff : ∀ a b, compare a b < 0 ↔ 0 < compare b a
  trans : ∀ a b c, compare a b ≤ 0 → compare b c ≤ 0 → compare a c ≤ 0

/-- An element ends before the next begins. -/
theorem element_end_le {k l : Nat} (array size : Nat) (hk : k < l) :
    array + k * size + size ≤ array + l * size := by
  have hle := Nat.mul_le_mul_right size (Nat.succ_le_of_lt hk)
  rw [Nat.succ_mul] at hle
  omega

namespace IsArray

variable {array cnt i j k : Nat} {mem mem' : Nat → UInt8}

theorem cnt_le (h : IsArray array cnt size) : cnt ≤ PTRDIFF_MAX :=
  Nat.le_trans (Nat.le_mul_of_pos_right cnt h.size_pos) h.object

theorem element_ptr_eq (h : IsArray array cnt size) (hk : k < cnt) :
    element_ptr array (k + 1) size = array + k * size := by
  have hend := element_end_le array size hk
  have hin := h.inside
  have hpos := h.size_pos
  have hcnt := h.cnt_le
  rw [PTRDIFF_MAX] at hcnt
  rw [WORD] at hin
  rw [element_ptr, size_sub_eq (by omega) (by rw [WORD]; omega), Nat.add_sub_cancel,
    size_mul_eq (by rw [WORD]; omega), size_add_eq (by rw [WORD]; omega)]

end IsArray

/-! ## Exchanging two elements -/

section Swap

variable {o : Object} {a b : Nat}

/-- Each byte from number `i` on is exchanged with the one of the other element. -/
theorem swap_from_spec (ha : o.lo ≤ a) (ha' : a + size ≤ o.hi) (hb : o.lo ≤ b)
    (hb' : b + size ≤ o.hi) (hsep : a + size ≤ b ∨ b + size ≤ a) (hword : o.hi < WORD) (n : Nat) :
    ∀ i mem, i + n = size → ∃ mem', swap_from o a b i n mem = some mem' ∧ ∀ p, mem' p =
      if a + i ≤ p ∧ p < a + size then mem (b + (p - a))
      else if b + i ≤ p ∧ p < b + size then mem (a + (p - b)) else mem p := by
  induction n with
  | zero =>
      intro i mem hi
      refine ⟨mem, rfl, fun p => ?_⟩
      rw [if_neg (by omega), if_neg (by omega)]
  | succ n ih =>
      intro i mem hi
      have hai : size_add a i = a + i := size_add_eq (by omega)
      have hbi : size_add b i = b + i := size_add_eq (by omega)
      have hina : o.lo ≤ a + i ∧ a + i < o.hi := by omega
      have hinb : o.lo ≤ b + i ∧ b + i < o.hi := by omega
      obtain ⟨mem', hrest, hmem⟩ := ih (i + 1) (Function.update
        (Function.update mem (a + i) (mem (b + i))) (b + i) (mem (a + i))) (by omega)
      refine ⟨mem', ?_, fun p => ?_⟩
      · rw [swap_from, hai, hbi, Object.load, ASSERT_pos hina, Object.load, ASSERT_pos hinb]
        change (o.store mem (a + i) (mem (b + i))).bind _ = _
        rw [Object.store, ASSERT_pos hina]
        change (o.store (Function.update mem (a + i) (mem (b + i))) (b + i)
          (mem (a + i))).bind _ = _
        rw [Object.store, ASSERT_pos hinb]
        exact hrest
      · rw [hmem]
        -- the bytes number `i` are exchanged now, those behind them later
        by_cases hpa : p = a + i
        · subst hpa
          rw [if_neg (by omega), if_neg (by omega), if_pos (by omega),
            Function.update_of_ne (by omega), Function.update_self]
          congr 1
          omega
        · by_cases hpb : p = b + i
          · subst hpb
            rw [if_neg (by omega), if_neg (by omega), if_neg (by omega), if_pos (by omega),
              Function.update_self]
            congr 1
            omega
          · have hoff : ∀ q, q ≠ a + i → q ≠ b + i → Function.update
                (Function.update mem (a + i) (mem (b + i))) (b + i) (mem (a + i)) q = mem q := by
              intro q hqa hqb
              rw [Function.update_of_ne hqb, Function.update_of_ne hqa]
            by_cases hina' : a + i ≤ p ∧ p < a + size
            · rw [if_pos (by omega), if_pos hina', hoff _ (by omega) (by omega)]
            · rw [if_neg (by omega), if_neg hina']
              by_cases hinb' : b + i ≤ p ∧ p < b + size
              · rw [if_pos (by omega), if_pos hinb', hoff _ (by omega) (by omega)]
              · rw [if_neg (by omega), if_neg hinb', hoff p hpa hpb]

variable {array cnt i j : Nat} {mem : Nat → UInt8}

/-- Elements are equal when their bytes are. -/
theorem element_eq {mem' : Nat → UInt8} {p q : Nat}
    (h : ∀ t, t < size → mem' (p + t) = mem (q + t)) : element mem' size p = element mem size q :=
  Subtype.ext (window_shift h)

/-- The elements `i` and `j` of the array are exchanged. -/
structure SwappedIn (array cnt size i j : Nat) (mem mem' : Nat → UInt8) : Prop where
  elem : elem mem' array size = elem mem array size ∘ Equiv.swap i j
  outside : ∀ p, p < array ∨ array + cnt * size ≤ p → mem' p = mem p

theorem do_swap_spec (h : IsArray array cnt size) (hi : i < cnt) (hj : j < cnt) (hne : i ≠ j)
    (mem : Nat → UInt8) :
    ∃ mem', do_swap (arrayObject array cnt size) mem array (i + 1) (j + 1) size = some mem' ∧
      SwappedIn array cnt size i j mem mem' := by
  have hiend := element_end_le array size hi
  have hjend := element_end_le array size hj
  -- different elements have no byte in common
  have hsep : ∀ k l, k ≠ l →
      array + k * size + size ≤ array + l * size ∨ array + l * size + size ≤ array + k * size :=
    fun k l hkl => (Nat.lt_or_gt_of_ne hkl).imp (element_end_le array size)
      (element_end_le array size)
  have hij := hsep i j hne
  obtain ⟨mem', hswap, hmem⟩ := swap_from_spec (o := arrayObject array cnt size)
    (a := array + i * size) (b := array + j * size) (Nat.le_add_right _ _) hiend
    (Nat.le_add_right _ _) hjend hij h.inside size 0 mem (Nat.zero_add size)
  refine ⟨mem', ?_, ?_, fun p hp => ?_⟩
  · rw [do_swap, h.element_ptr_eq hi, h.element_ptr_eq hj]
    exact hswap
  · funext k
    rw [Function.comp_apply]
    by_cases hki : k = i
    · subst hki
      rw [Equiv.swap_apply_left]
      refine element_eq fun t ht => ?_
      rw [hmem, if_pos (by omega)]
      congr 1
      omega
    · by_cases hkj : k = j
      · subst hkj
        rw [Equiv.swap_apply_right]
        refine element_eq fun t ht => ?_
        rw [hmem, if_neg (by omega), if_pos (by omega)]
        congr 1
        omega
      · rw [Equiv.swap_apply_of_ne_of_ne hki hkj]
        have hki' := hsep k i hki
        have hkj' := hsep k j hkj
        refine element_eq fun t ht => ?_
        rw [hmem, if_neg (by omega), if_neg (by omega)]
  · rw [hmem, if_neg (by omega), if_neg (by omega)]

end Swap

/-! ## Heaps of elements -/

section Heapsort

variable {array cnt n i j k fuel : Nat} {mem mem' : Nat → UInt8}
  {compare : Element size → Element size → Aux → Int} {aux : Aux}

/-- The order of the elements. -/
def ElementLe (compare : Element size → Element size → Aux → Int) (aux : Aux)
    (a b : Element size) : Prop := compare a b aux ≤ 0

theorem do_compare_eq (h : IsArray array cnt size) (hi : i < cnt) (hj : j < cnt) :
    do_compare (arrayObject array cnt size) mem array (i + 1) (j + 1) compare aux =
      some (compare (elem mem array size i) (elem mem array size j) aux) := by
  have hiend := element_end_le array size hi
  have hjend := element_end_le array size hj
  rw [do_compare, h.element_ptr_eq hi, h.element_ptr_eq hj, Object.element, Object.element,
    ASSERT_pos ⟨Nat.le_add_right _ _, hiend⟩, ASSERT_pos ⟨Nat.le_add_right _ _, hjend⟩]
  rfl

/-- The larger one of an element and its child. -/
theorem larger_spec (mem : Nat → UInt8) (compare : Element size → Element size → Aux → Int)
    (aux : Aux) (h : IsArray array cnt size) (hn : n ≤ cnt) (hj : j < n) (i : Nat) :
    ∃ m, larger (arrayObject array cnt size) mem array (i + 1) (j + 1) n compare aux =
        some (m + 1) ∧
      (m = i ∧ i < n ∧ ¬ ElementLe compare aux (elem mem array size i) (elem mem array size j) ∨
        m = j ∧
          (i < n → ElementLe compare aux (elem mem array size i) (elem mem array size j))) := by
  rw [larger]
  by_cases hi : i < n
  · rw [if_pos (Nat.succ_le_of_lt hi), do_compare_eq h (by omega) (by omega)]
    by_cases hgt : 0 < compare (elem mem array size i) (elem mem array size j) aux
    · exact ⟨i, congrArg some (if_pos hgt), Or.inl ⟨rfl, hi, Int.not_le.2 hgt⟩⟩
    · exact ⟨j, congrArg some (if_neg hgt), Or.inr ⟨rfl, fun _ => Int.not_lt.1 hgt⟩⟩
  · rw [if_neg (by omega)]
    exact ⟨j, rfl, Or.inr ⟨rfl, fun hlt => absurd hlt hi⟩⟩

/-- A node, or the largest of its children if one is above it. -/
structure LargestOf {α : Type*} (le : α → α → Prop) (n : Nat) (f : Nat → α) (i m : Nat) : Prop where
  lt : m < n
  stay : m = i → AboveChildren le n f i
  child : m ≠ i → IsChild m i ∧ ¬ le (f m) (f i) ∧ ∀ d, IsChild d i → d < n → le (f d) (f m)

/-- The larger of the two children is what the comparison with one and then with the other finds. -/
theorem largestOf_pair {α : Type*} {le : α → α → Prop} [IsTrans α le] [Std.Total le]
    {f : Nat → α} (hi : i < n) {l m : Nat}
    (hl : l = 2 * i + 1 ∧ 2 * i + 1 < n ∧ ¬ le (f (2 * i + 1)) (f i) ∨
      l = i ∧ (2 * i + 1 < n → le (f (2 * i + 1)) (f i)))
    (hm : m = 2 * i + 2 ∧ 2 * i + 2 < n ∧ ¬ le (f (2 * i + 2)) (f l) ∨
      m = l ∧ (2 * i + 2 < n → le (f (2 * i + 2)) (f l))) : LargestOf le n f i m := by
  have hrefl : ∀ a, le (f a) (f a) := fun a => (total_of le (f a) (f a)).elim id id
  -- first by what the left child gave, then by what the right one did
  rcases hl with ⟨rfl, hln, hlgt⟩ | ⟨rfl, hlle⟩
  · have hil := (total_of le (f (2 * i + 1)) (f i)).resolve_left hlgt
    rcases hm with ⟨rfl, hrn, hrgt⟩ | ⟨rfl, hrle⟩
    · have hlr := (total_of le (f (2 * i + 2)) (f (2 * i + 1))).resolve_left hrgt
      refine ⟨hrn, fun h => absurd h (by omega), fun _ => ⟨Or.inr rfl, fun hri => ?_, ?_⟩⟩
      · exact hrgt (trans_of le hri hil)
      · rintro d (rfl | rfl) _
        · exact hlr
        · exact hrefl _
    · refine ⟨hln, fun h => absurd h (by omega), fun _ => ⟨Or.inl rfl, hlgt, ?_⟩⟩
      rintro d (rfl | rfl) hd
      · exact hrefl _
      · exact hrle hd
  · rcases hm with ⟨rfl, hrn, hrgt⟩ | ⟨rfl, hrle⟩
    · have hir := (total_of le (f (2 * l + 2)) (f l)).resolve_left hrgt
      refine ⟨hrn, fun h => absurd h (by omega), fun _ => ⟨Or.inr rfl, hrgt, ?_⟩⟩
      rintro d (rfl | rfl) hd
      · exact trans_of le (hlle hd) hir
      · exact hrefl _
    · refine ⟨hi, fun _ => ?_, fun h => absurd rfl h⟩
      rintro d (rfl | rfl) hd
      · exact hlle hd
      · exact hrle hd

/-- The elements of an array are rearranged, and nothing else is changed. -/
structure RearrangedIn (array cnt size : Nat) (mem mem' : Nat → UInt8) : Prop where
  elem : Rearranged cnt (elem mem array size) (elem mem' array size)
  outside : ∀ p, p < array ∨ array + cnt * size ≤ p → mem' p = mem p

theorem RearrangedIn.refl (array cnt size : Nat) (mem : Nat → UInt8) :
    RearrangedIn array cnt size mem mem :=
  ⟨Rearranged.refl _ _, fun _ _ => rfl⟩

theorem RearrangedIn.trans {mem'' : Nat → UInt8} (h : RearrangedIn array cnt size mem mem')
    (h' : RearrangedIn array cnt size mem' mem'') : RearrangedIn array cnt size mem mem'' :=
  ⟨h.elem.trans h'.elem, fun p hp => (h'.outside p hp).trans (h.outside p hp)⟩

theorem SwappedIn.rearranged (h : SwappedIn array cnt size i j mem mem') (hi : i < cnt)
    (hj : j < cnt) : RearrangedIn array cnt size mem mem' where
  elem := by
    rw [h.elem]
    exact rearranged_swap hi hj
  outside := h.outside

variable (compare aux) [IsTrans _ (ElementLe compare aux)] [Std.Total (ElementLe compare aux)]

/-- Every pass goes down one level, so that there are at most as many as elements behind `i`. -/
theorem heapify_spec (h : IsArray array cnt size) (hn : n ≤ cnt) (d : Nat) :
    ∀ i mem, i < n → n - i = d → ∃ mem', (∀ fuel, d ≤ fuel →
        heapify (arrayObject array cnt size) array n compare aux fuel mem (i + 1) = some mem') ∧
      Sift (ElementLe compare aux) n (elem mem array size) i (elem mem' array size) ∧
      RearrangedIn array cnt size mem mem' := by
  induction d using Nat.strong_induction_on with
  | _ d ih =>
      intro i mem hi hd
      have hcnt := h.cnt_le
      rw [PTRDIFF_MAX] at hcnt
      have hleft : size_mul 2 (i + 1) = 2 * i + 1 + 1 := by
        rw [size_mul_eq (by rw [WORD]; omega)]
        omega
      have hright : size_add (size_mul 2 (i + 1)) 1 = 2 * i + 2 + 1 := by
        rw [hleft, size_add_eq (by rw [WORD]; omega)]
      -- the children of the element number `i`, whose index is `i + 1`
      obtain ⟨l, hlarger, hl⟩ := larger_spec mem compare aux h hn hi (2 * i + 1)
      have hln : l < n := by
        rcases hl with ⟨rfl, hlt, -⟩ | ⟨rfl, -⟩
        · exact hlt
        · exact hi
      obtain ⟨m, hlarger', hm⟩ := larger_spec mem compare aux h hn hln (2 * i + 2)
      have hmax := largestOf_pair hi hl hm
      by_cases hstay : m = i
      · refine ⟨mem, fun fuel hfuel => ?_, .stay _ _ (hmax.stay hstay), .refl _ _ _ _⟩
        obtain ⟨fuel, rfl⟩ := Nat.exists_eq_add_of_le' (show 1 ≤ fuel by omega)
        rw [heapify, hright, hleft, hlarger]
        change (larger _ mem array (2 * i + 2 + 1) (l + 1) n compare aux).bind _ = _
        rw [hlarger']
        exact if_pos (congrArg Nat.succ hstay)
      · obtain ⟨hchild, hgt, hall⟩ := hmax.child hstay
        have hlt := hchild.lt
        have hmn := hmax.lt
        obtain ⟨mem₁, hswap, hswapped⟩ :=
          do_swap_spec h (Nat.lt_of_lt_of_le hi hn) (Nat.lt_of_lt_of_le hmn hn) (Ne.symm hstay) mem
        obtain ⟨mem', hrest, hsift, hre⟩ := ih (n - m) (by omega) m mem₁ hmn rfl
        refine ⟨mem', fun fuel hfuel => ?_, ?_, .trans ?_ hre⟩
        · obtain ⟨fuel, rfl⟩ := Nat.exists_eq_add_of_le' (show 1 ≤ fuel by omega)
          rw [heapify, hright, hleft, hlarger]
          change (larger _ mem array (2 * i + 2 + 1) (l + 1) n compare aux).bind _ = _
          rw [hlarger']
          refine (if_neg fun heq => hstay (Nat.succ.inj heq)).trans ?_
          rw [hswap]
          exact hrest fuel (by omega)
        · refine .down _ _ i m hchild hmn hgt hall ?_
          rw [← hswapped.elem]
          exact hsift
        · exact hswapped.rearranged (Nat.lt_of_lt_of_le hi hn) (Nat.lt_of_lt_of_le hmn hn)

theorem build_heap_spec (h : IsArray array cnt size) (i : Nat) : ∀ mem, i ≤ cnt / 2 →
    HeapFrom (ElementLe compare aux) i cnt (elem mem array size) →
    ∃ mem', (∀ fuel, cnt ≤ fuel →
        build_heap (arrayObject array cnt size) array cnt compare aux fuel mem i = some mem') ∧
      HeapFrom (ElementLe compare aux) 0 cnt (elem mem' array size) ∧
      RearrangedIn array cnt size mem mem' := by
  induction i with
  | zero =>
      intro mem _ hheap
      exact ⟨mem, fun _ _ => rfl, hheap, .refl _ _ _ _⟩
  | succ i ih =>
      intro mem hi hheap
      -- the elements behind `i` are heaps already
      obtain ⟨mem₁, hsift, hsifted, hre⟩ := heapify_spec compare aux h (Nat.le_refl cnt)
        (cnt - i) i mem (by omega) rfl
      obtain ⟨mem', hrest, hheap', hre'⟩ :=
        ih mem₁ (by omega) (hsifted.heapFrom hheap.heapBut (Nat.le_refl i))
      refine ⟨mem', fun fuel hfuel => ?_, hheap', hre.trans hre'⟩
      rw [build_heap, hsift fuel (by omega)]
      exact hrest fuel hfuel

theorem sort_heap_spec (h : IsArray array cnt size) (i : Nat) : ∀ mem, i ≤ cnt →
    Selected (ElementLe compare aux) i cnt (elem mem array size) →
    ∃ mem', (∀ fuel, cnt ≤ fuel →
        sort_heap (arrayObject array cnt size) array compare aux fuel mem i = some mem') ∧
      (∀ a b, a ≤ b → b < cnt →
        ElementLe compare aux (elem mem' array size a) (elem mem' array size b)) ∧
      RearrangedIn array cnt size mem mem' := by
  induction i using Nat.twoStepInduction with
  | zero =>
      intro mem _ hsel
      exact ⟨mem, fun _ _ => rfl, fun a b => hsel.sorted a b (Nat.zero_le a), .refl _ _ _ _⟩
  | one =>
      intro mem _ hsel
      refine ⟨mem, fun _ _ => rfl, fun a b hab hb => ?_, .refl _ _ _ _⟩
      -- the heap is the first element
      rcases Nat.eq_zero_or_pos b with rfl | hpos
      · obtain rfl := Nat.le_zero.1 hab
        exact (total_of (ElementLe compare aux) _ _).elim id id
      · rcases Nat.eq_zero_or_pos a with rfl | hpos'
        · exact hsel.above 0 b Nat.zero_lt_one hpos hb
        · exact hsel.sorted a b hpos' hab hb
  | more i _ ih =>
      intro mem hi hsel
      -- the greatest element goes behind the heap, which is one smaller from now on
      obtain ⟨mem₁, hswap, hswapped⟩ :=
        do_swap_spec h (show 0 < cnt by omega) (show i + 1 < cnt by omega) (by omega) mem
      obtain ⟨mem₂, hsift, hsifted, hre⟩ := heapify_spec compare aux h
        (show i + 1 ≤ cnt by omega) (i + 1 - 0) 0 mem₁ (by omega) rfl
      rw [hswapped.elem] at hsifted
      obtain ⟨mem', hrest, hsorted, hre'⟩ :=
        ih mem₂ (by omega) (hsel.step (Nat.succ_pos i) hsifted)
      have hfirst := hswapped.rearranged (show 0 < cnt by omega) (show i + 1 < cnt by omega)
      refine ⟨mem', fun fuel hfuel => ?_, hsorted, (hfirst.trans hre).trans hre'⟩
      have hswap' : do_swap (arrayObject array cnt size) mem array 1 (i + 2) size = some mem₁ :=
        hswap
      rw [sort_heap, hswap']
      change (heapify _ array (i + 1) compare aux fuel mem₁ 1).bind _ = _
      rw [hsift fuel (by omega)]
      exact hrest fuel hfuel

theorem sort_spec (h : IsArray array cnt size) (mem : Nat → UInt8) :
    ∃ mem', (∀ fuel, cnt ≤ fuel →
        sort (arrayObject array cnt size) fuel mem array cnt compare aux = some mem') ∧
      (∀ a b, a ≤ b → b < cnt →
        ElementLe compare aux (elem mem' array size a) (elem mem' array size b)) ∧
      RearrangedIn array cnt size mem mem' := by
  obtain ⟨mem₁, hbuild, hheap, hre⟩ := build_heap_spec compare aux h (cnt / 2) mem
    (Nat.le_refl _) (heapFrom_half _ _)
  obtain ⟨mem', hsort, hsorted, hre'⟩ :=
    sort_heap_spec compare aux h cnt mem₁ (Nat.le_refl cnt) hheap.selected
  refine ⟨mem', fun fuel hfuel => ?_, hsorted, hre.trans hre'⟩
  rw [sort, ASSERT_pos h.not_null, ASSERT_pos h.size_pos]
  change (build_heap _ array cnt compare aux fuel mem (cnt / 2)).bind _ = _
  rw [hbuild fuel hfuel]
  exact hsort fuel hfuel

end Heapsort

/-! ## Binary search -/

section Search

variable {array cnt lo hi fuel : Nat} {mem : Nat → UInt8} {key : Element size}
  {compare : Element size → Element size → Aux → Int} {aux : Aux}

theorem TotalPreorder.isTrans (hc : TotalPreorder fun a b => compare a b aux) :
    IsTrans _ (ElementLe compare aux) :=
  ⟨hc.trans⟩

theorem TotalPreorder.total (hc : TotalPreorder fun a b => compare a b aux) :
    Std.Total (ElementLe compare aux) := by
  refine ⟨fun a b => ?_⟩
  by_cases hab : compare a b aux ≤ 0
  · exact Or.inl hab
  · exact Or.inr (Int.le_of_lt ((hc.neg_iff b a).2 (Int.not_le.1 hab)))

/-- What is below an element is below those that are not. -/
theorem TotalPreorder.lt_of_lt_of_le {a b c : Element size}
    (hc : TotalPreorder fun a b => compare a b aux) (hab : compare a b aux < 0)
    (hbc : compare b c aux ≤ 0) : compare a c aux < 0 := by
  by_contra hac
  have hca : compare c a aux ≤ 0 := by
    by_contra hgt
    exact hac ((hc.neg_iff a c).2 (Int.not_le.1 hgt))
  have hba := hc.trans b c a hbc hca
  have hgt := (hc.neg_iff a b).1 hab
  omega

/-- What is above an element is above those that are not. -/
theorem TotalPreorder.gt_of_gt_of_le {a b c : Element size}
    (hc : TotalPreorder fun a b => compare a b aux) (hab : 0 < compare a b aux)
    (hcb : compare c b aux ≤ 0) : 0 < compare a c aux := by
  by_contra hac
  have hba := (hc.neg_iff b a).2 hab
  have hle := hc.trans a c b (Int.not_lt.1 hac) hcb
  omega

/-- Only elements from `lo` to `hi` can be equal to the key. -/
structure Searched (compare : Element size → Element size → Aux → Int) (aux : Aux)
    (mem : Nat → UInt8) (key : Element size) (array cnt lo hi : Nat) : Prop where
  le : lo ≤ hi
  hi_le : hi ≤ cnt
  below : ∀ k, k < lo → 0 < compare key (elem mem array size k) aux
  above : ∀ k, hi ≤ k → k < cnt → compare key (elem mem array size k) aux < 0

/-- The pointer to an element that is equal to the key, or none if there is no such element. -/
def SearchFinds (compare : Element size → Element size → Aux → Int) (aux : Aux) (mem : Nat → UInt8)
    (key : Element size) (array cnt : Nat) (r : Option Nat) : Prop :=
  (r = none ∧ ∀ k, k < cnt → compare key (elem mem array size k) aux ≠ 0) ∨
    ∃ k, k < cnt ∧ r = some (array + k * size) ∧ compare key (elem mem array size k) aux = 0

/-- One pass of the loop looks at the element in the middle. -/
theorem search_from_pass (mem : Nat → UInt8) (key : Element size)
    (compare : Element size → Element size → Aux → Int) (aux : Aux) (fuel : Nat) {m : Nat}
    (h : IsArray array cnt size) (hhi : hi ≤ cnt) (hlt : lo < hi) (hm : m = lo + (hi - lo) / 2) :
    search_from (arrayObject array cnt size) mem key compare aux (fuel + 1) (array + lo * size)
        (array + hi * size) =
      if compare key (elem mem array size m) aux < 0 then
        search_from (arrayObject array cnt size) mem key compare aux fuel (array + lo * size)
          (array + m * size)
      else if compare key (elem mem array size m) aux > 0 then
        search_from (arrayObject array cnt size) mem key compare aux fuel (array + (m + 1) * size)
          (array + hi * size)
      else some (some (array + m * size)) := by
  have hsize := h.size_pos
  have hcnt := Nat.mul_le_mul_right size hhi
  have hin := h.inside
  have hlast := element_end_le array size (show m < hi by omega)
  have hfirst := element_end_le array size hlt
  -- no sum and no difference of pointers wraps around
  have hrange : size_sub (array + hi * size) (array + lo * size) / size = hi - lo := by
    rw [size_sub_eq (by omega) (by omega), Nat.add_sub_add_left, ← Nat.sub_mul,
      Nat.mul_div_cancel _ hsize]
  have hmiddle : size_add (array + lo * size) (size_mul ((hi - lo) / 2) size) =
      array + m * size := by
    have hsum : array + lo * size + (hi - lo) / 2 * size = array + m * size := by
      rw [hm, Nat.add_mul, Nat.add_assoc]
    rw [size_mul_eq (by omega), size_add_eq (by omega), hsum]
  have hnext : size_add (array + m * size) size = array + (m + 1) * size := by
    rw [size_add_eq (by omega), Nat.add_mul, Nat.one_mul, Nat.add_assoc]
  have hload : (arrayObject array cnt size).element mem size (array + m * size) =
      some (elem mem array size m) := by
    have hinside : array ≤ array + m * size ∧ array + m * size + size ≤ array + cnt * size :=
      ⟨Nat.le_add_right _ _, by omega⟩
    rw [Object.element]
    exact congrArg (fun x => x.bind fun _ => some (elem mem array size m)) (ASSERT_pos hinside)
  rw [search_from, if_pos (by omega)]
  simp only [hrange, hmiddle, hload, hnext]
  rfl

theorem search_from_spec {key : Element size} (hc : TotalPreorder fun a b => compare a b aux)
    (h : IsArray array cnt size) (hsorted : ∀ a b, a ≤ b → b < cnt →
      ElementLe compare aux (elem mem array size a) (elem mem array size b)) (d : Nat) :
    ∀ lo hi, Searched compare aux mem key array cnt lo hi → hi - lo = d →
      ∃ r, (∀ fuel, d < fuel → search_from (arrayObject array cnt size) mem key compare aux fuel
          (array + lo * size) (array + hi * size) = some r) ∧
        SearchFinds compare aux mem key array cnt r := by
  induction d using Nat.strong_induction_on with
  | _ d ih =>
      intro lo hi hs hd
      have hle := hs.le
      have hhi := hs.hi_le
      by_cases hlt : lo < hi
      · obtain ⟨m, hm⟩ : ∃ m, m = lo + (hi - lo) / 2 := ⟨_, rfl⟩
        have hmhi : m < hi := by omega
        have hpass := fun fuel => search_from_pass mem key compare aux fuel h hhi hlt hm
        by_cases hneg : compare key (elem mem array size m) aux < 0
        · -- the key is below all elements from the middle on
          obtain ⟨r, hr, hfinds⟩ := ih (m - lo) (by omega) lo m ⟨by omega, by omega, hs.below,
            fun k hk hkcnt => hc.lt_of_lt_of_le hneg (hsorted m k hk hkcnt)⟩ rfl
          refine ⟨r, fun fuel hfuel => ?_, hfinds⟩
          obtain ⟨fuel, rfl⟩ := Nat.exists_eq_add_of_le' (show 1 ≤ fuel by omega)
          rw [hpass, if_pos hneg, hr fuel (by omega)]
        · by_cases hgt : compare key (elem mem array size m) aux > 0
          · -- it is above all up to the middle
            obtain ⟨r, hr, hfinds⟩ := ih (hi - (m + 1)) (by omega) (m + 1) hi ⟨by omega, hhi,
              fun k hk => hc.gt_of_gt_of_le hgt (hsorted k m (by omega) (by omega)), hs.above⟩ rfl
            refine ⟨r, fun fuel hfuel => ?_, hfinds⟩
            obtain ⟨fuel, rfl⟩ := Nat.exists_eq_add_of_le' (show 1 ≤ fuel by omega)
            rw [hpass, if_neg hneg, if_pos hgt, hr fuel (by omega)]
          · refine ⟨some (array + m * size), fun fuel hfuel => ?_,
              Or.inr ⟨m, by omega, rfl, by omega⟩⟩
            obtain ⟨fuel, rfl⟩ := Nat.exists_eq_add_of_le' (show 1 ≤ fuel by omega)
            rw [hpass, if_neg hneg, if_neg hgt]
      · -- nothing is left that could be equal to it
        refine ⟨none, fun fuel hfuel => ?_, Or.inl ⟨rfl, fun k hk => ?_⟩⟩
        · obtain ⟨fuel, rfl⟩ := Nat.exists_eq_add_of_le' (show 1 ≤ fuel by omega)
          have hnot : ¬ array + lo * size < array + hi * size := by
            rw [show lo = hi by omega]
            exact Nat.lt_irrefl _
          exact if_neg hnot
        · by_cases hklo : k < lo
          · exact (ne_of_lt (hs.below k hklo)).symm
          · exact ne_of_lt (hs.above k (by omega) hk)

theorem binary_search_spec (hc : TotalPreorder fun a b => compare a b aux)
    (h : IsArray array cnt size) (hsorted : ∀ a b, a ≤ b → b < cnt →
      ElementLe compare aux (elem mem array size a) (elem mem array size b)) (key : Element size) :
    ∃ r, (∀ fuel, cnt < fuel → binary_search (arrayObject array cnt size) fuel mem key array cnt
        compare aux = some r) ∧ SearchFinds compare aux mem key array cnt r := by
  obtain ⟨r, hr, hfinds⟩ := search_from_spec hc h hsorted cnt 0 cnt
    ⟨Nat.zero_le _, Nat.le_refl _, fun k hk => absurd hk (Nat.not_lt_zero k),
      fun k hk hlt => absurd hlt (Nat.not_lt.2 hk)⟩ (Nat.sub_zero cnt)
  have hend : size_add array (size_mul size cnt) = array + cnt * size := by
    have hin := h.inside
    rw [Nat.mul_comm] at hin ⊢
    rw [size_mul_eq (by omega), size_add_eq hin]
  refine ⟨r, fun fuel hfuel => ?_, hfinds⟩
  have hloop := hr fuel hfuel
  rwa [Nat.zero_mul, Nat.add_zero, ← hend] at hloop

end Search

/-! ## Lists of elements -/

section Lists

variable {array cnt : Nat} {mem : Nat → UInt8} {le : Element size → Element size → Prop}

theorem pairwise_elems_iff (hrefl : ∀ a, le a a) : (elems mem array cnt size).Pairwise le ↔
    ∀ a b, a ≤ b → b < cnt → le (elem mem array size a) (elem mem array size b) := by
  rw [elems, List.pairwise_map, List.pairwise_iff_getElem]
  simp only [List.length_range, List.getElem_range]
  constructor
  · intro h a b hab hb
    rcases Nat.eq_or_lt_of_le hab with rfl | hlt
    · exact hrefl _
    · exact h a b (by omega) hb hlt
  · intro h a b _ hb hab
    exact h a b (Nat.le_of_lt hab) hb

theorem SearchFinds.isSome_iff {compare : Element size → Element size → Aux → Int} {aux : Aux}
    {key : Element size} {r : Option Nat} (h : SearchFinds compare aux mem key array cnt r) :
    r.isSome ↔ ∃ e ∈ elems mem array cnt size, compare key e aux = 0 := by
  have hmem : (∃ e ∈ elems mem array cnt size, compare key e aux = 0) ↔
      ∃ k, k < cnt ∧ compare key (elem mem array size k) aux = 0 := by
    simp only [elems, List.mem_map, List.mem_range, exists_exists_and_eq_and]
  rw [hmem]
  rcases h with ⟨rfl, hnone⟩ | ⟨k, hk, rfl, heq⟩
  · refine iff_of_false (fun h => absurd h Bool.false_ne_true) ?_
    rintro ⟨k, hk, heq⟩
    exact hnone k hk heq
  · exact iff_of_true rfl ⟨k, hk, heq⟩

/-- `sort` ends with the elements in order and has touched nothing but the array.  In a sorted array
`binary_search` returns a pointer to an element equal to the key, if there is one. -/
theorem sort_and_search_exact (compare : Element size → Element size → Aux → Int) (aux : Aux)
    (hc : TotalPreorder fun a b => compare a b aux) (h : IsArray array cnt size)
    (mem : Nat → UInt8) :
    (∃ mem', (∀ fuel, cnt ≤ fuel →
          sort (arrayObject array cnt size) fuel mem array cnt compare aux = some mem') ∧
        (elems mem' array cnt size).Perm (elems mem array cnt size) ∧
        (elems mem' array cnt size).Pairwise (fun a b => compare a b aux ≤ 0) ∧
        ∀ p, p < array ∨ array + cnt * size ≤ p → mem' p = mem p) ∧
      ((elems mem array cnt size).Pairwise (fun a b => compare a b aux ≤ 0) → ∀ key,
        ∃ r, (∀ fuel, cnt < fuel → binary_search (arrayObject array cnt size) fuel mem key array cnt
            compare aux = some r) ∧
          (r.isSome ↔ ∃ e ∈ elems mem array cnt size, compare key e aux = 0) ∧
          ∀ p, r = some p → ∃ k, k < cnt ∧ p = array + k * size ∧
            compare key (elem mem array size k) aux = 0) := by
  have := hc.isTrans
  have := hc.total
  have hrefl : ∀ a, ElementLe compare aux a a := fun a =>
    (total_of (ElementLe compare aux) a a).elim id id
  constructor
  · obtain ⟨mem', hsort, hsorted, hre⟩ := sort_spec compare aux h mem
    exact ⟨mem', hsort, hre.elem.perm, (pairwise_elems_iff hrefl).2 hsorted, hre.outside⟩
  · intro hsorted key
    obtain ⟨r, hr, hfinds⟩ :=
      binary_search_spec hc h ((pairwise_elems_iff hrefl).1 hsorted) key
    refine ⟨r, hr, hfinds.isSome_iff, fun p hp => ?_⟩
    rcases hfinds with ⟨hnone, -⟩ | ⟨k, hk, hsome, heq⟩
    · rw [hnone] at hp
      cases hp
    · exact ⟨k, hk, Option.some.inj (hp.symm.trans hsome), heq⟩

end Lists

/-- The first byte decides. -/
def compare_first (a b : Element 2) : Int := (a.1.headD 0).toNat - (b.1.headD 0).toNat

theorem compare_first_order : TotalPreorder fun a b => compare_thunk a b compare_first where
  neg_iff a b := by
    simp only [compare_thunk, compare_first]
    omega
  trans a b c hab hbc := by
    simp only [compare_thunk, compare_first] at *
    omega

theorem two_elements_at_four : IsArray 4 2 2 where
  size_pos := Nat.two_pos
  object := by decide
  inside := by decide
  not_null := Or.inl (Nat.succ_ne_zero 3)

/-- Two elements of two bytes, the wrong way round. -/
theorem sort_and_search_exact_two : ∃ mem',
    qsort (arrayObject 4 2 2) 2 (fun p => if p = 4 then 7 else 0) 4 2 compare_first = some mem' ∧
      (elems mem' 4 2 2).Pairwise fun a b => compare_first a b ≤ 0 := by
  obtain ⟨⟨mem', hsort, -, hsorted, -⟩, -⟩ := sort_and_search_exact compare_thunk
    compare_first compare_first_order two_elements_at_four (fun p => if p = 4 then 7 else 0)
  exact ⟨mem', hsort 2 (Nat.le_refl 2), hsorted⟩

end Berk162
