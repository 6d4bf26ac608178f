import Berk162.LibKernel.Hash
import Berk162.Lib.KeyedSet

/-!
# HashInv — what holds of a hash table between its functions

`HashInv` says that every element is in the bucket that `find_bucket` gives, and once; `TableOf`
that the elements are those of a keyed set, and that they are counted.
-/

namespace Berk162

/-! ## The number of buckets -/

theorem turn_off_least_1bit_eq {x : Nat} (hpos : 0 < x) (hlt : x < WORD) :
    turn_off_least_1bit x = x &&& (x - 1) := by
  have hsub : size_sub x 1 = x - 1 := size_sub_eq hpos hlt
  rw [turn_off_least_1bit, hsub]

/-- The highest bit stays when the lowest is turned off, but for a power of 2. -/
theorem testBit_and_pred {x : Nat} (h : 2 ^ x.log2 < x) : (x &&& (x - 1)).testBit x.log2 = true := by
  have hpos := Nat.two_pow_pos x.log2
  have hup := Nat.lt_log2_self (n := x)
  have hpred : (x - 1).log2 = x.log2 := (Nat.log2_eq_iff (by omega)).2 ⟨by omega, by omega⟩
  have hbit : (x - 1).testBit (x - 1).log2 = true := Nat.testBit_log2 (by omega)
  rw [hpred] at hbit
  rw [Nat.testBit_and, Nat.testBit_log2 (by omega), hbit]
  rfl

theorem le_turn_off_least_1bit {x k : Nat} (hk : 2 ^ k ≤ x) (hlt : x < WORD)
    (hx : turn_off_least_1bit x ≠ 0) : 2 ^ k ≤ turn_off_least_1bit x := by
  have hpos : 0 < x := lt_of_lt_of_le (Nat.two_pow_pos k) hk
  have hne : x ≠ 0 := Nat.ne_of_gt hpos
  rw [turn_off_least_1bit_eq hpos hlt] at hx ⊢
  rcases Nat.lt_or_eq_of_le (Nat.log2_self_le hne) with hself | hself
  · exact le_trans (Nat.pow_le_pow_right (by decide) ((Nat.le_log2 hne).2 hk))
      (Nat.ge_two_pow_of_testBit (testBit_and_pred hself))
  · exfalso
    refine hx ?_
    rw [← hself, Nat.and_two_pow_sub_one_eq_mod, Nat.mod_self]

theorem is_power_of_2_spec {x : Nat} (hlt : x < WORD) (h : is_power_of_2 x = true) :
    ∃ k, x = 2 ^ k := by
  rw [is_power_of_2, Bool.and_eq_true, decide_eq_true_iff, decide_eq_true_iff] at h
  rcases Nat.lt_or_eq_of_le (Nat.log2_self_le h.1) with hself | hself
  · have hbit := testBit_and_pred hself
    rw [← turn_off_least_1bit_eq (Nat.pos_of_ne_zero h.1) hlt, h.2, Nat.zero_testBit] at hbit
    cases hbit
  · exact ⟨x.log2, hself.symm⟩

theorem round_down_spec (x : Nat) (h4 : 4 ≤ x) (hlt : x < WORD) :
    ∃ k, 2 ≤ k ∧ round_down x = some (2 ^ k) ∧ 2 ^ k ≤ x := by
  induction x using Nat.strong_induction_on with
  | _ x ih =>
      rw [round_down]
      cases hpow : is_power_of_2 x with
      | true =>
          rcases is_power_of_2_spec hlt hpow with ⟨k, rfl⟩
          refine ⟨k, ?_, rfl, le_refl _⟩
          by_contra hk
          have hle := Nat.pow_le_pow_right (n := 2) (by decide) (show k ≤ 1 by omega)
          omega
      | false =>
          have hx : x ≠ 0 := by omega
          have hne : turn_off_least_1bit x ≠ 0 := by
            intro h0
            rw [is_power_of_2, decide_eq_true hx, decide_eq_true h0] at hpow
            cases hpow
          have hless := turn_off_least_1bit_lt hx hlt
          have hfour : 2 ^ 2 ≤ turn_off_least_1bit x := le_turn_off_least_1bit h4 hlt hne
          rcases ih _ hless hfour (by omega) with ⟨k, hk, hround, hle⟩
          refine ⟨k, hk, ?_, by omega⟩
          rw [if_neg Bool.false_ne_true, dif_neg (by omega), hround]

/-! ## Elements -/

/-- Pointers to `struct hash_elem`s: objects of 8 bytes that do not overlap in memory. -/
class HashElem (α : Type) where
  addr : α → Nat
  fits : ∀ e, addr e + 8 ≤ WORD
  apart : ∀ e e', e ≠ e' → addr e + 8 ≤ addr e' ∨ addr e' + 8 ≤ addr e

/-- The number of elements that there is room for in memory. -/
def MAX_ELEMS : Nat := 2 ^ 29

theorem card_le_max_elems {α : Type} [HashElem α] (s : Finset α) : s.card ≤ MAX_ELEMS := by
  have hmaps : ∀ e ∈ s, HashElem.addr e / 8 ∈ Finset.range MAX_ELEMS := by
    intro e _
    have hfits := HashElem.fits e
    simp only [Finset.mem_range, MAX_ELEMS, WORD] at hfits ⊢
    omega
  have hinj : ∀ e ∈ s, ∀ e' ∈ s, HashElem.addr e / 8 = HashElem.addr e' / 8 → e = e' := by
    intro e _ e' _ heq
    by_contra hne
    rcases HashElem.apart e e' hne with h | h
    · omega
    · omega
  have hcard := Finset.card_le_card_of_injOn _ hmaps hinj
  rwa [Finset.card_range] at hcard

/-- The functions of a table are consistent with one equality: elements that neither is less than
the other are equal, and have the same hash. -/
structure HashFuncs (α : Type) where
  hash : α → BitVec 32
  less : α → α → Bool
  irrefl : ∀ e, less e e = false
  trans : ∀ a b c, less a b = false → less b a = false → less b c = false → less c b = false →
    less a c = false ∧ less c a = false
  hash_eq : ∀ a b, less a b = false → less b a = false → hash a = hash b

namespace HashFuncs

variable {α : Type}

/-- The equality of elements. -/
def setoid (F : HashFuncs α) : Setoid α where
  r a b := F.less a b = false ∧ F.less b a = false
  iseqv :=
    { refl := fun e => ⟨F.irrefl e, F.irrefl e⟩
      symm := fun h => ⟨h.2, h.1⟩
      trans := fun h h' => F.trans _ _ _ h.1 h.2 h'.1 h'.2 }

end HashFuncs

/-! ## The invariant -/

variable {α : Type} {F : HashFuncs α} {h h' : Hash α} {e : α} {i : Nat}

/-- `e` is in the bucket that it belongs in. -/
def Hash.Holds (h : Hash α) (e : α) : Prop := e ∈ h.buckets (h.find_bucket e)

/-- What holds of a table, whose functions are those of `F`. -/
structure HashInv (F : HashFuncs α) (h : Hash α) : Prop where
  hash_eq : h.hash = F.hash
  less_eq : h.less = F.less
  pow : ∃ k, 2 ≤ k ∧ h.bucket_cnt = 2 ^ k
  lt : h.bucket_cnt < WORD
  bucket : ∀ i e, e ∈ h.buckets i → i = h.find_bucket e
  nodup : ∀ i, (h.buckets i).Nodup

theorem HashInv.four_le (hi : HashInv F h) : 4 ≤ h.bucket_cnt := by
  rcases hi.pow with ⟨k, hk, heq⟩
  rw [heq]
  exact Nat.pow_le_pow_right (n := 2) (by decide) hk

/-- Taking the low bits of the hash is taking its remainder. -/
theorem find_bucket_lt {k : Nat} (hcnt : h.bucket_cnt = 2 ^ k) (hlt : h.bucket_cnt < WORD) (e : α) :
    h.find_bucket e < h.bucket_cnt := by
  have hpos : 0 < h.bucket_cnt := by
    rw [hcnt]
    exact Nat.two_pow_pos k
  have hsub : size_sub h.bucket_cnt 1 = h.bucket_cnt - 1 := size_sub_eq hpos hlt
  rw [Hash.find_bucket, hsub, hcnt, Nat.and_two_pow_sub_one_eq_mod]
  exact Nat.mod_lt _ (Nat.two_pow_pos k)

theorem HashInv.find_bucket_lt (hi : HashInv F h) (e : α) : h.find_bucket e < h.bucket_cnt := by
  rcases hi.pow with ⟨k, _, hcnt⟩
  exact Berk162.find_bucket_lt hcnt hi.lt e

theorem HashInv.mem_iff (hi : HashInv F h) : e ∈ h.buckets i ↔ i = h.find_bucket e ∧ h.Holds e := by
  constructor
  · intro he
    have hbucket := hi.bucket i e he
    refine ⟨hbucket, ?_⟩
    rw [Hash.Holds, ← hbucket]
    exact he
  · rintro ⟨rfl, he⟩
    exact he

theorem HashInv.find_bucket_eq (hi : HashInv F h) {a : α} (hr : F.setoid a e) :
    h.find_bucket a = h.find_bucket e := by
  rw [Hash.find_bucket, Hash.find_bucket, hi.hash_eq, F.hash_eq a e hr.1 hr.2]

theorem HashInv.same_iff (hi : HashInv F h) {a : α} : h.same a e = true ↔ F.setoid a e := by
  rw [Hash.same, hi.less_eq, Bool.and_eq_true, Bool.not_eq_true', Bool.not_eq_true']
  rfl

/-- The elements of the table, bucket by bucket. -/
def Hash.elements (h : Hash α) : List α := (List.range h.bucket_cnt).flatMap h.buckets

theorem HashInv.mem_elements (hi : HashInv F h) : e ∈ h.elements ↔ h.Holds e := by
  rw [Hash.elements, List.mem_flatMap]
  constructor
  · rintro ⟨i, _, he⟩
    exact (hi.mem_iff.1 he).2
  · exact fun he => ⟨_, List.mem_range.2 (hi.find_bucket_lt e), he⟩

theorem HashInv.nodup_elements (hi : HashInv F h) : h.elements.Nodup := by
  rw [Hash.elements, List.nodup_flatMap]
  refine ⟨fun i _ => hi.nodup i, ?_⟩
  refine (List.nodup_range (n := h.bucket_cnt)).imp fun {i j} hij => ?_
  intro e he he'
  exact hij ((hi.bucket i e he).trans (hi.bucket j e he').symm)

/-! ## Moving elements -/

/-- An element that is not in the table is put into its bucket. -/
theorem HashInv.push_front (hi : HashInv F h) (he : ¬ h.Holds e) :
    HashInv F (h.push_front (h.find_bucket e) e) ∧
      ∀ x, (h.push_front (h.find_bucket e) e).Holds x ↔ x = e ∨ h.Holds x := by
  have hsame : ∀ x, (h.push_front (h.find_bucket e) e).find_bucket x = h.find_bucket x := fun _ => rfl
  have hbuckets : ∀ i, (h.push_front (h.find_bucket e) e).buckets i =
      if i = h.find_bucket e then e :: h.buckets i else h.buckets i := by
    intro i
    by_cases hbucket : i = h.find_bucket e
    · rw [if_pos hbucket, hbucket]
      exact Function.update_self _ _ _
    · rw [if_neg hbucket]
      exact Function.update_of_ne hbucket _ _
  have hmem : ∀ i x, x ∈ (h.push_front (h.find_bucket e) e).buckets i ↔
      (x = e ∧ i = h.find_bucket e) ∨ x ∈ h.buckets i := by
    intro i x
    rw [hbuckets]
    split
    · rename_i hbucket
      rw [List.mem_cons]
      exact or_congr_left ⟨fun hx => ⟨hx, hbucket⟩, And.left⟩
    · rename_i hbucket
      exact ⟨Or.inr, fun hx => hx.elim (fun hx => absurd hx.2 hbucket) id⟩
  refine ⟨⟨hi.hash_eq, hi.less_eq, hi.pow, hi.lt, fun i x hx => ?_, fun i => ?_⟩, fun x => ?_⟩
  · rw [hsame]
    rcases (hmem i x).1 hx with ⟨rfl, hbucket⟩ | hx
    · exact hbucket
    · exact hi.bucket i x hx
  · rw [hbuckets]
    split
    · rename_i hbucket
      refine List.nodup_cons.2 ⟨fun hx => he ?_, hi.nodup i⟩
      exact (hi.mem_iff.1 hx).2
    · exact hi.nodup i
  · rw [Hash.Holds, hmem, hsame]
    constructor
    · exact fun hx => hx.imp_left And.left
    · rintro (rfl | hx)
      · exact Or.inl ⟨rfl, rfl⟩
      · exact Or.inr hx

/-- The elements of a list are moved into the table. -/
theorem HashInv.move_all {l : List α} (hi : HashInv F h) (hl : l.Nodup)
    (hnew : ∀ e ∈ l, ¬ h.Holds e) :
    HashInv F (l.foldl Hash.move_elem h) ∧
      (∀ x, (l.foldl Hash.move_elem h).Holds x ↔ x ∈ l ∨ h.Holds x) ∧
      (l.foldl Hash.move_elem h).elem_cnt = h.elem_cnt := by
  induction l generalizing h with
  | nil =>
      exact ⟨hi, fun x => ⟨Or.inr, fun hx => hx.elim nofun id⟩, rfl⟩
  | cons e l ih =>
      rcases List.nodup_cons.1 hl with ⟨hel, hl⟩
      have hmove : h.push_front (h.find_bucket e) e = h.move_elem e := rfl
      rcases hi.push_front (hnew e List.mem_cons_self) with ⟨hi', hholds⟩
      rw [hmove] at hi' hholds
      have hnew' : ∀ x ∈ l, ¬ (h.move_elem e).Holds x := by
        intro x hx hheld
        rcases (hholds x).1 hheld with rfl | hheld
        · exact hel hx
        · exact hnew x (List.mem_cons_of_mem _ hx) hheld
      rcases ih hi' hl hnew' with ⟨hi'', hholds', hcnt⟩
      refine ⟨hi'', fun x => ?_, hcnt⟩
      rw [List.foldl_cons, hholds', List.mem_cons]
      refine (or_congr_right (hholds x)).trans ?_
      rw [or_left_comm, or_assoc]

/-- `rehash` changes neither what is in the table nor the number of elements. -/
theorem HashInv.rehash (hi : HashInv F h) (hcnt : h.elem_cnt ≤ MAX_ELEMS) (ok : Bool) :
    ∃ h', h.rehash ok = some h' ∧ HashInv F h' ∧ (∀ x, h'.Holds x ↔ h.Holds x) ∧
      h'.elem_cnt = h.elem_cnt := by
  have hlt : max (h.elem_cnt / 2) 4 < WORD := by
    simp only [MAX_ELEMS, WORD] at hcnt ⊢
    omega
  rcases round_down_spec (max (h.elem_cnt / 2) 4) (le_max_right _ _) hlt with ⟨k, hk, hround, hle⟩
  have hsmall : 2 ^ k ≤ 2 ^ 28 := by
    simp only [MAX_ELEMS] at hcnt
    omega
  have hsame : ∃ h', some h = some h' ∧ HashInv F h' ∧ (∀ x, h'.Holds x ↔ h.Holds x) ∧
      h'.elem_cnt = h.elem_cnt := ⟨h, rfl, hi, fun _ => Iff.rfl, rfl⟩
  rw [Hash.rehash, hround, Option.bind_eq_bind, Option.bind_some]
  by_cases heq : 2 ^ k = h.bucket_cnt
  · rw [if_pos heq]
    exact hsame
  rw [if_neg heq]
  by_cases hfail : ok = false ∨ size_mul sizeof_list (2 ^ k) = 0
  · rw [if_pos hfail]
    exact hsame
  rw [if_neg hfail]
  -- the size of the new array does not overflow, as `malloc` has found memory for it
  have hsize : size_mul sizeof_list (2 ^ k) = sizeof_list * 2 ^ k := by
    have hne : 2 ^ k ≠ 2 ^ 28 := by
      intro hpow
      refine hfail (Or.inr ?_)
      rw [hpow]
      rfl
    refine size_mul_eq ?_
    simp only [sizeof_list, WORD]
    omega
  have hassert : ASSERT (sizeof_list * 2 ^ k ≤ size_mul sizeof_list (2 ^ k)) = some () :=
    ASSERT_pos hsize.ge
  have hempty : HashInv F { h with buckets := fun _ => [], bucket_cnt := 2 ^ k } := by
    refine ⟨hi.hash_eq, hi.less_eq, ⟨k, hk, rfl⟩, ?_, nofun, fun _ => List.nodup_nil⟩
    simp only [WORD]
    omega
  rcases hempty.move_all hi.nodup_elements (fun e _ => List.not_mem_nil) with ⟨hi', hholds, hcnt'⟩
  refine ⟨_, ?_, hi', fun x => ?_, hcnt'⟩
  · rw [hassert, Option.bind_eq_bind, Option.bind_some, Hash.elements, List.foldl_flatMap]
    rfl
  · rw [hholds, hi.mem_elements]
    exact ⟨fun hx => hx.elim id fun hx => absurd hx List.not_mem_nil, Or.inl⟩

/-! ## What a table stands for -/

/-- The table contains the elements of `S`, and counts them. -/
structure TableOf (F : HashFuncs α) (h : Hash α) (S : KeyedSet F.setoid) : Prop where
  inv : HashInv F h
  holds : ∀ e, h.Holds e ↔ e ∈ S.elems
  elem_cnt : h.elem_cnt = S.elems.card

namespace TableOf

variable {S : KeyedSet F.setoid}

/-- `find_elem` finds what the set has. -/
theorem find_elem (ht : TableOf F h S) (e : α) : h.find_elem (h.find_bucket e) e = S.find e := by
  rw [Hash.find_elem]
  cases hfind : (h.buckets (h.find_bucket e)).find? fun hi => h.same hi e with
  | none =>
      symm
      rw [KeyedSet.find_eq_none_iff]
      intro a ha hr
      -- an equal element would be in the same bucket
      have hmem : a ∈ h.buckets (h.find_bucket e) := by
        rw [← ht.inv.find_bucket_eq hr]
        exact (ht.holds a).2 ha
      have hnot := List.find?_eq_none.1 hfind a hmem
      exact hnot (ht.inv.same_iff.2 hr)
  | some a =>
      symm
      rw [KeyedSet.find_eq_some_iff, ← ht.holds]
      have hmem := List.mem_of_find?_eq_some hfind
      have hsame : h.same a e = true := by
        have hsome := List.find?_some hfind
        exact hsome
      exact ⟨(ht.inv.mem_iff.1 hmem).2, ht.inv.same_iff.1 hsame⟩

variable [HashElem α]

theorem elem_cnt_le (ht : TableOf F h S) : h.elem_cnt ≤ MAX_ELEMS := by
  rw [ht.elem_cnt]
  exact card_le_max_elems S.elems

theorem rehash (ht : TableOf F h S) (ok : Bool) : ∃ h', h.rehash ok = some h' ∧ TableOf F h' S := by
  rcases ht.inv.rehash ht.elem_cnt_le ok with ⟨h', hrehash, hi, hholds, hcnt⟩
  exact ⟨h', hrehash, hi, fun e => (hholds e).trans (ht.holds e), hcnt.trans ht.elem_cnt⟩

/-- `insert_elem`, for an element that has no equal in the table. -/
theorem insert_elem (ht : TableOf F h S) (hnone : S.find e = none) :
    TableOf F (h.insert_elem (h.find_bucket e) e) (S.replace e) := by
  have hnot : ¬ h.Holds e := fun he =>
    KeyedSet.find_eq_none_iff.1 hnone e ((ht.holds e).1 he) (F.setoid.refl e)
  rcases ht.inv.push_front hnot with ⟨hi, hholds⟩
  have hcard : (S.replace e).elems.card = S.elems.card + 1 := by
    rw [KeyedSet.card_replace, KeyedSet.delete_of_find_none hnone]
  refine ⟨⟨hi.hash_eq, hi.less_eq, hi.pow, hi.lt, hi.bucket, hi.nodup⟩, fun x => ?_, ?_⟩
  · rw [KeyedSet.mem_replace, ← KeyedSet.mem_delete, KeyedSet.delete_of_find_none hnone, ← ht.holds]
    exact hholds x
  · have hle := card_le_max_elems (S.replace e).elems
    have hadd : size_add h.elem_cnt 1 = h.elem_cnt + 1 := by
      refine size_add_eq ?_
      rw [hcard, ← ht.elem_cnt] at hle
      simp only [MAX_ELEMS, WORD] at hle ⊢
      omega
    rw [hcard, ← ht.elem_cnt]
    exact hadd

variable [DecidableEq α]

/-- `remove_elem`, for the element that is equal to `e`. -/
theorem remove_elem {a : α} (ht : TableOf F h S) (hfind : S.find e = some a) :
    TableOf F (h.remove_elem a) (S.delete e) := by
  rcases KeyedSet.find_eq_some_iff.1 hfind with ⟨ha, hae⟩
  have hmem : ∀ i x, x ∈ (h.remove_elem a).buckets i ↔ x ≠ a ∧ x ∈ h.buckets i := fun i x =>
    (ht.inv.nodup i).mem_erase_iff
  have hsame : ∀ x, (h.remove_elem a).find_bucket x = h.find_bucket x := fun x => by
    rw [Hash.find_bucket, Hash.find_bucket, Hash.remove_elem]
  have hi : HashInv F (h.remove_elem a) := by
    constructor
    case hash_eq =>
      rw [Hash.remove_elem]
      exact ht.inv.hash_eq
    case less_eq =>
      rw [Hash.remove_elem]
      exact ht.inv.less_eq
    case pow =>
      rw [Hash.remove_elem]
      exact ht.inv.pow
    case lt =>
      rw [Hash.remove_elem]
      exact ht.inv.lt
    case bucket =>
      intro i x hx
      rw [hsame]
      exact ht.inv.bucket i x ((hmem i x).1 hx).2
    case nodup =>
      intro i
      exact (ht.inv.nodup i).erase a
  refine ⟨hi, fun x => ?_, ?_⟩
  · rw [KeyedSet.mem_delete, ← ht.holds, Hash.Holds, hsame]
    refine (hmem _ x).trans ?_
    constructor
    · rintro ⟨hxa, hx⟩
      refine ⟨hx, fun hxe => hxa ?_⟩
      exact S.unique x ((ht.holds x).1 hx) a ha (F.setoid.trans hxe (F.setoid.symm hae))
    · rintro ⟨hx, hxe⟩
      refine ⟨?_, hx⟩
      rintro rfl
      exact hxe hae
  · have hcard := KeyedSet.card_delete hfind
    have hle := ht.elem_cnt_le
    rw [← ht.elem_cnt] at hcard
    have hsub : size_sub h.elem_cnt 1 = h.elem_cnt - 1 := by
      refine size_sub_eq (by omega) ?_
      simp only [MAX_ELEMS, WORD] at hle ⊢
      omega
    have hcnt : (h.remove_elem a).elem_cnt = h.elem_cnt - 1 := hsub
    rw [hcnt, ← hcard, Nat.add_sub_cancel]

end TableOf

end Berk162
