import Berk162.Lib.CText
import Berk162.MapReduce.TaskHandler
import Mathlib.Data.List.Lex
import Mathlib.Data.Prod.Lex

/-!
# ByKey — the order in which `reduce_kvs` sorts

`by_key` compares with `strncmp`, which does not look past a null character, and then by length.
So it orders keys by their `codes`, the bytes before the first null character, and then by length:
it takes two keys for equal exactly when their `rank`s are.
-/

namespace Berk162.MapReduce

/-- The bytes before the first null character, as numbers. -/
def codes (bs : Bytes) : List Nat := (c_chars bs).map UInt8.toNat

/-- What `by_key` sees of a key. -/
def rank (key : SizedBuffer) : Lex (List Nat × Nat) := toLex (codes key.bytes, key.bytes.length)

theorem codes_nil : codes [] = [] := rfl

theorem codes_cons_zero (bs : Bytes) : codes (0 :: bs) = [] := by
  simp [codes, c_chars]

theorem codes_cons_of_ne {b : UInt8} (h : b ≠ 0) (bs : Bytes) :
    codes (b :: bs) = b.toNat :: codes bs := by
  simp [codes, c_chars, h]

/-- How `strncmp`, over the length of the shorter string, compares two strings. -/
inductive Compared (as bs : Bytes) (c : Int) : Prop
  | lt (hc : c < 0) (h : codes as < codes bs)
  | gt (hc : 0 < c) (h : codes bs < codes as)
  | same (hc : c = 0) (h : codes as = codes bs)
  | stops (hc : c = 0) (h : codes as < codes bs) (hlen : as.length < bs.length)
  | goes_on (hc : c = 0) (h : codes bs < codes as) (hlen : bs.length < as.length)

theorem Compared.cons {a : UInt8} {as bs : Bytes} {c : Int} (ha : a ≠ 0) (h : Compared as bs c) :
    Compared (a :: as) (a :: bs) c := by
  have hlt : ∀ {s t : List Nat}, s < t → a.toNat :: s < a.toNat :: t :=
    fun hst => List.cons_lt_cons_iff.2 (Or.inr ⟨rfl, hst⟩)
  cases h with
  | lt hc h =>
      exact .lt hc (by rw [codes_cons_of_ne ha, codes_cons_of_ne ha]; exact hlt h)
  | gt hc h =>
      exact .gt hc (by rw [codes_cons_of_ne ha, codes_cons_of_ne ha]; exact hlt h)
  | same hc h =>
      exact .same hc (by rw [codes_cons_of_ne ha, codes_cons_of_ne ha, h])
  | stops hc h hlen =>
      exact .stops hc (by rw [codes_cons_of_ne ha, codes_cons_of_ne ha]; exact hlt h)
        (Nat.succ_lt_succ hlen)
  | goes_on hc h hlen =>
      exact .goes_on hc (by rw [codes_cons_of_ne ha, codes_cons_of_ne ha]; exact hlt h)
        (Nat.succ_lt_succ hlen)

theorem compared_strncmp (as bs : Bytes) :
    Compared as bs (strncmp as bs (min as.length bs.length)) := by
  induction as generalizing bs with
  | nil =>
      cases bs with
      | nil =>
          exact .same rfl rfl
      | cons b bs =>
          by_cases hb : b = 0
          · exact .same rfl (by rw [hb, codes_cons_zero, codes_nil])
          · exact .stops rfl (by rw [codes_cons_of_ne hb, codes_nil]; exact List.nil_lt_cons _ _)
              (Nat.succ_pos _)
  | cons a as ih =>
      cases bs with
      | nil =>
          by_cases ha : a = 0
          · exact .same rfl (by rw [ha, codes_cons_zero, codes_nil])
          · exact .goes_on rfl (by rw [codes_cons_of_ne ha, codes_nil]; exact List.nil_lt_cons _ _)
              (Nat.succ_pos _)
      | cons b bs =>
          have hmin : min (a :: as).length (b :: bs).length = min as.length bs.length + 1 := by
            rw [List.length_cons, List.length_cons, Nat.succ_min_succ]
          rw [hmin, strncmp]
          by_cases hab : a = b
          · subst hab
            rw [if_neg (not_not.2 rfl)]
            by_cases ha : a = 0
            · rw [if_pos ha]
              exact .same rfl (by rw [ha, codes_cons_zero, codes_cons_zero])
            · rw [if_neg ha]
              exact (ih bs).cons ha
          · rw [if_pos hab]
            have hne : a.toNat ≠ b.toNat := fun h => hab (UInt8.toNat_inj.1 h)
            -- the first difference decides; a null character is less than any other
            by_cases ha : a = 0
            · subst ha
              have hb : b ≠ 0 := fun h => hab h.symm
              refine .lt ?_ (by
                rw [codes_cons_zero, codes_cons_of_ne hb]; exact List.nil_lt_cons _ _)
              have h0 : (0 : UInt8).toNat = 0 := rfl
              rw [h0] at hne ⊢
              omega
            · by_cases hb : b = 0
              · subst hb
                refine .gt ?_ (by
                  rw [codes_cons_zero, codes_cons_of_ne ha]; exact List.nil_lt_cons _ _)
                have h0 : (0 : UInt8).toNat = 0 := rfl
                rw [h0] at hne ⊢
                omega
              · rcases Nat.lt_or_gt_of_ne hne with hlt | hlt
                · refine .lt (by omega) ?_
                  rw [codes_cons_of_ne ha, codes_cons_of_ne hb]
                  exact List.cons_lt_cons_iff.2 (Or.inl hlt)
                · refine .gt (by omega) ?_
                  rw [codes_cons_of_ne ha, codes_cons_of_ne hb]
                  exact List.cons_lt_cons_iff.2 (Or.inl hlt)

/-- A key whose length fits into an `int`. -/
def KeyValue.Short (kv : KeyValue) : Prop := kv.key.bytes.length < 2 ^ 31

theorem by_key_eq {kv1 kv2 : KeyValue} (h1 : kv1.Short) (h2 : kv2.Short) :
    by_key kv1 kv2 =
      let ret := strncmp kv1.key.bytes kv2.key.bytes
        (min kv1.key.bytes.length kv2.key.bytes.length)
      if ret = 0 then (kv1.key.bytes.length : Int) - kv2.key.bytes.length else ret := by
  have hmin : (if kv1.key.bytes.length < kv2.key.bytes.length then kv1.key.bytes.length
      else kv2.key.bytes.length) = min kv1.key.bytes.length kv2.key.bytes.length := by
    split_ifs <;> omega
  have hint : int32 ((kv1.key.bytes.length : Int) - kv2.key.bytes.length) =
      (kv1.key.bytes.length : Int) - kv2.key.bytes.length := by
    rw [KeyValue.Short] at h1 h2
    exact int32_eq (by omega) (by omega)
  simp only [by_key, hmin, hint]

theorem rank_lt_iff {x y : SizedBuffer} :
    rank x < rank y ↔ codes x.bytes < codes y.bytes ∨
      (codes x.bytes = codes y.bytes ∧ x.bytes.length < y.bytes.length) :=
  Prod.Lex.toLex_lt_toLex

/-- The sign of `by_key` is the order of the ranks. -/
theorem by_key_sign {kv1 kv2 : KeyValue} (h1 : kv1.Short) (h2 : kv2.Short) :
    (by_key kv1 kv2 < 0 ∧ rank kv1.key < rank kv2.key) ∨
      (by_key kv1 kv2 = 0 ∧ rank kv1.key = rank kv2.key) ∨
        (0 < by_key kv1 kv2 ∧ rank kv2.key < rank kv1.key) := by
  rw [by_key_eq h1 h2]
  simp only [rank_lt_iff]
  cases compared_strncmp kv1.key.bytes kv2.key.bytes with
  | lt hc h =>
      rw [if_neg hc.ne]
      exact Or.inl ⟨hc, Or.inl h⟩
  | gt hc h =>
      rw [if_neg hc.ne']
      exact Or.inr (Or.inr ⟨hc, Or.inl h⟩)
  | same hc h =>
      rw [if_pos hc]
      rcases Nat.lt_trichotomy kv1.key.bytes.length kv2.key.bytes.length with hlt | heq | hgt
      · exact Or.inl ⟨by omega, Or.inr ⟨h, hlt⟩⟩
      · exact Or.inr (Or.inl ⟨by omega, by rw [rank, rank, h, heq]⟩)
      · exact Or.inr (Or.inr ⟨by omega, Or.inr ⟨h.symm, hgt⟩⟩)
  | stops hc h hlen =>
      rw [if_pos hc]
      exact Or.inl ⟨by omega, Or.inl h⟩
  | goes_on hc h hlen =>
      rw [if_pos hc]
      exact Or.inr (Or.inr ⟨by omega, Or.inl h⟩)

theorem by_key_eq_zero_iff {kv1 kv2 : KeyValue} (h1 : kv1.Short) (h2 : kv2.Short) :
    by_key kv1 kv2 = 0 ↔ rank kv1.key = rank kv2.key := by
  rcases by_key_sign h1 h2 with ⟨hc, h⟩ | ⟨hc, h⟩ | ⟨hc, h⟩
  · exact iff_of_false hc.ne h.ne
  · exact iff_of_true hc h
  · exact iff_of_false hc.ne' h.ne'

theorem by_key_le_zero_iff {kv1 kv2 : KeyValue} (h1 : kv1.Short) (h2 : kv2.Short) :
    by_key kv1 kv2 ≤ 0 ↔ rank kv1.key ≤ rank kv2.key := by
  rcases by_key_sign h1 h2 with ⟨hc, h⟩ | ⟨hc, h⟩ | ⟨hc, h⟩
  · exact iff_of_true hc.le h.le
  · exact iff_of_true hc.le h.le
  · exact iff_of_false (by omega) h.not_ge

/-- A function is consistent with which a pair comes before another just where its rank does. -/
theorem consistent_of_rank {cmp : KeyValue → KeyValue → Int} {l : List KeyValue} {β : Type*}
    [LinearOrder β] (r : KeyValue → β)
    (h : ∀ a ∈ l, ∀ b ∈ l, (cmp a b < 0 ∧ r a < r b) ∨ (cmp a b = 0 ∧ r a = r b) ∨
      (0 < cmp a b ∧ r b < r a)) : Consistent cmp l := by
  have hlt {a b : KeyValue} (ha : a ∈ l) (hb : b ∈ l) : cmp a b < 0 ↔ r a < r b := by
    rcases h a ha b hb with ⟨hc, hr⟩ | ⟨hc, hr⟩ | ⟨hc, hr⟩
    · exact iff_of_true hc hr
    · exact iff_of_false hc.not_lt hr.not_lt
    · exact iff_of_false (by omega) hr.asymm
  have hgt {a b : KeyValue} (ha : a ∈ l) (hb : b ∈ l) : 0 < cmp a b ↔ r b < r a := by
    rcases h a ha b hb with ⟨hc, hr⟩ | ⟨hc, hr⟩ | ⟨hc, hr⟩
    · exact iff_of_false (by omega) hr.asymm
    · exact iff_of_false hc.not_gt hr.not_gt
    · exact iff_of_true hc hr
  refine ⟨fun a ha b hb => (hlt ha hb).trans (hgt hb ha).symm, fun a ha b hb c hc => ?_⟩
  rw [← not_lt, ← not_lt, ← not_lt, hgt ha hb, hgt hb hc, hgt ha hc, not_lt, not_lt, not_lt]
  exact le_trans

/-- A sort by `by_key` can rely on it. -/
theorem consistent_by_key {l : List KeyValue} (h : ∀ kv ∈ l, kv.Short) : Consistent by_key l :=
  consistent_of_rank (fun kv => rank kv.key) fun a ha b hb => by_key_sign (h a ha) (h b hb)

/-- A sort that behaves as `qsort` is documented to. -/
def Qsort.merge : Qsort where
  sort cmp l := (l.attach.mergeSort (fun a b => cmp a.1 b.1 ≤ 0)).map Subtype.val
  perm cmp l := by
    have hperm := (List.mergeSort_perm l.attach (fun a b => cmp a.1 b.1 ≤ 0)).map Subtype.val
    rwa [List.attach_map_subtype_val] at hperm
  sorted cmp l h := by
    rw [List.pairwise_map]
    refine (List.pairwise_mergeSort ?_ ?_ _).imp (fun hle => by simpa using hle)
    · intro a b c hab hbc
      simp only [decide_eq_true_eq] at hab hbc ⊢
      exact h.trans a.1 a.2 b.1 b.2 c.1 c.2 hab hbc
    · intro a b
      simp only [Bool.or_eq_true, decide_eq_true_eq]
      by_contra hcon
      rw [not_or, not_le, not_le] at hcon
      have hneg := (h.antisymm b.1 b.2 a.1 a.2).2 hcon.1
      exact absurd hneg (not_lt.2 hcon.2.le)

end Berk162.MapReduce
