import Mathlib.Data.Finset.Card

/-!
# KeyedSet — finite sets keyed by an equality of their elements

Elements that are equal for the purpose of the set need not be the same element: a set contains at
most one of them.  The operations are those of a dictionary: look up, insert, replace, delete.
-/

namespace Berk162

/-- A finite set in which no two elements are equal with respect to `r`. -/
@[ext] structure KeyedSet {α : Type*} (r : Setoid α) where
  elems : Finset α
  unique : ∀ a ∈ elems, ∀ b ∈ elems, r a b → a = b

namespace KeyedSet

open Classical

variable {α : Type*} {r : Setoid α} {S : KeyedSet r} {a e : α}

/-- The set without elements. -/
def empty (r : Setoid α) : KeyedSet r := ⟨∅, fun _ ha => absurd ha (Finset.notMem_empty _)⟩

/-- The element that is equal to `e`. -/
noncomputable def find (S : KeyedSet r) (e : α) : Option α :=
  if h : ∃ a ∈ S.elems, r a e then some h.choose else none

theorem find_eq_some_iff : S.find e = some a ↔ a ∈ S.elems ∧ r a e := by
  rw [find]
  split
  · rename_i h
    have hspec := h.choose_spec
    rw [Option.some.injEq]
    constructor
    · rintro rfl
      exact hspec
    · rintro ⟨ha, hae⟩
      exact S.unique _ hspec.1 a ha (r.trans hspec.2 (r.symm hae))
  · rename_i h
    exact ⟨nofun, fun ha => absurd ⟨a, ha⟩ h⟩

theorem find_eq_none_iff : S.find e = none ↔ ∀ a ∈ S.elems, ¬ r a e := by
  rw [Option.eq_none_iff_forall_ne_some]
  exact ⟨fun h a ha hae => h a (find_eq_some_iff.2 ⟨ha, hae⟩),
    fun h a ha => h a (find_eq_some_iff.1 ha).1 (find_eq_some_iff.1 ha).2⟩

/-- The set without the element that is equal to `e`. -/
noncomputable def delete (S : KeyedSet r) (e : α) : KeyedSet r where
  elems := S.elems.filter fun a => ¬ r a e
  unique a ha b hb := S.unique a (Finset.mem_filter.1 ha).1 b (Finset.mem_filter.1 hb).1

/-- The set with `e` in place of the element that is equal to it. -/
noncomputable def replace (S : KeyedSet r) (e : α) : KeyedSet r where
  elems := insert e (S.delete e).elems
  unique a ha b hb hab := by
    have hne : ∀ c, c ∈ (S.delete e).elems → ¬ r c e := fun c hc => (Finset.mem_filter.1 hc).2
    rcases Finset.mem_insert.1 ha with rfl | ha
    · rcases Finset.mem_insert.1 hb with rfl | hb
      · rfl
      · exact absurd (r.symm hab) (hne b hb)
    · rcases Finset.mem_insert.1 hb with rfl | hb
      · exact absurd hab (hne a ha)
      · exact (S.delete e).unique a ha b hb hab

/-- The set with `e`, if no element is equal to it. -/
noncomputable def insert (S : KeyedSet r) (e : α) : KeyedSet r :=
  if S.find e = none then S.replace e else S

@[simp] theorem mem_empty : a ∉ (empty r).elems := Finset.notMem_empty a

@[simp] theorem mem_delete : a ∈ (S.delete e).elems ↔ a ∈ S.elems ∧ ¬ r a e := Finset.mem_filter

@[simp] theorem mem_replace : a ∈ (S.replace e).elems ↔ a = e ∨ (a ∈ S.elems ∧ ¬ r a e) := by
  rw [replace, Finset.mem_insert, mem_delete]

theorem delete_of_find_none (h : S.find e = none) : S.delete e = S :=
  KeyedSet.ext (Finset.filter_true_of_mem (find_eq_none_iff.1 h))

theorem card_delete (h : S.find e = some a) : (S.delete e).elems.card + 1 = S.elems.card := by
  rcases find_eq_some_iff.1 h with ⟨ha, hae⟩
  have herase : (S.delete e).elems = S.elems.erase a := by
    ext b
    rw [mem_delete, Finset.mem_erase]
    constructor
    · rintro ⟨hb, hbe⟩
      exact ⟨fun hba => hbe (hba ▸ hae), hb⟩
    · rintro ⟨hba, hb⟩
      exact ⟨hb, fun hbe => hba (S.unique b hb a ha (r.trans hbe (r.symm hae)))⟩
  rw [herase]
  exact Finset.card_erase_add_one ha

theorem card_replace : (S.replace e).elems.card = (S.delete e).elems.card + 1 :=
  Finset.card_insert_of_notMem fun he => (mem_delete.1 he).2 (r.refl e)

end KeyedSet

end Berk162
