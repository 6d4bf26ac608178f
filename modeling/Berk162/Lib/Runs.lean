import Mathlib.Data.List.Dedup
import Mathlib.Order.Basic

/-!
# Runs — grouping adjacent elements by key

`runs κ l` cuts `l` into maximal runs of adjacent elements with the same key.  Over a list sorted by
key there is one run per key, and it holds all the elements with that key; the order of the keys may
be any antisymmetric relation.
-/

namespace Berk162

universe u v w

variable {α : Type u} {K : Type v} [DecidableEq K]

/-- Keeping the first of each group of equal elements or the last makes no difference but for the
order. -/
theorem eraseDups_perm_dedup (l : List K) : l.eraseDups.Perm l.dedup := by
  have hnodup : ∀ l : List K, l.eraseDups.Nodup := by
    intro l
    induction hlen : l.length using Nat.strongRecOn generalizing l with
    | _ n ih =>
        cases l with
        | nil =>
            exact List.nodup_nil
        | cons a l =>
            have hlt : (l.filter (fun b => !b == a)).length < n := by
              rw [← hlen, List.length_cons]
              exact Nat.lt_succ_of_le (List.length_filter_le _ _)
            rw [List.eraseDups_cons, List.nodup_cons]
            refine ⟨fun hmem => ?_, ih _ hlt _ rfl⟩
            simpa using (List.mem_filter.1 (List.mem_eraseDups.1 hmem)).2
  rw [List.perm_ext_iff_of_nodup (hnodup l) (List.nodup_dedup l)]
  intro a
  rw [List.mem_eraseDups, List.mem_dedup]

/-- A map that keeps the elements of a list apart keeps the number of copies of each. -/
theorem dedup_map_perm {K' : Type w} [DecidableEq K'] {l : List K} {f : K → K'}
    (h : ∀ a ∈ l, ∀ b ∈ l, f a = f b → a = b) : (l.map f).dedup.Perm (l.dedup.map f) := by
  have hnodup : (l.dedup.map f).Nodup :=
    List.Nodup.map_on
      (fun a ha b hb => h a (List.mem_dedup.1 ha) b (List.mem_dedup.1 hb)) (List.nodup_dedup l)
  rw [List.perm_ext_iff_of_nodup (List.nodup_dedup _) hnodup]
  intro c
  simp only [List.mem_dedup, List.mem_map]

/-- The keys of a list, collected from `n` buckets. -/
theorem buckets_dedup_perm {κ : α → K} {bucket : K → Nat} {n : Nat} (hn : ∀ k, bucket k < n)
    (l : List α) :
    ((List.range n).flatMap fun r =>
        ((l.filter fun a => bucket (κ a) = r).map κ).dedup).Perm (l.map κ).dedup := by
  have hmem : ∀ k r, k ∈ ((l.filter fun a => bucket (κ a) = r).map κ).dedup ↔
      k ∈ l.map κ ∧ bucket k = r := by
    intro k r
    simp only [List.mem_dedup, List.mem_map, List.mem_filter, decide_eq_true_eq]
    constructor
    · rintro ⟨a, ⟨ha, hr⟩, rfl⟩
      exact ⟨⟨a, ha, rfl⟩, hr⟩
    · rintro ⟨⟨a, ha, rfl⟩, hr⟩
      exact ⟨a, ⟨ha, hr⟩, rfl⟩
  have hnodup : ((List.range n).flatMap fun r =>
      ((l.filter fun a => bucket (κ a) = r).map κ).dedup).Nodup := by
    rw [List.nodup_flatMap]
    refine ⟨fun r _ => List.nodup_dedup _, ?_⟩
    refine List.Pairwise.imp ?_ List.nodup_range
    intro r r' hne k hk hk'
    exact hne (((hmem k r).1 hk).2.symm.trans ((hmem k r').1 hk').2)
  rw [List.perm_ext_iff_of_nodup hnodup (List.nodup_dedup _)]
  intro k
  simp only [List.mem_flatMap, List.mem_range, hmem]
  rw [List.mem_dedup]
  constructor
  · rintro ⟨r, _, hk, _⟩
    exact hk
  · intro hk
    exact ⟨bucket k, hn k, hk, rfl⟩

/-- The maximal runs of adjacent elements that have the same key as the first of the run. -/
def runs (κ : α → K) : List α → List (List α)
  | [] => []
  | a :: l =>
      (a :: l.takeWhile (fun b => κ b = κ a)) :: runs κ (l.dropWhile (fun b => κ b = κ a))
termination_by l => l.length
decreasing_by
  rw [List.length_cons]
  exact Nat.lt_succ_of_le (List.dropWhile_suffix _).length_le

variable {κ : α → K}

theorem runs_nil : runs κ [] = [] := by
  rw [runs]

theorem runs_cons (a : α) (l : List α) :
    runs κ (a :: l) =
      (a :: l.takeWhile (fun b => κ b = κ a)) :: runs κ (l.dropWhile (fun b => κ b = κ a)) := by
  rw [runs]

/-- A run that is known to go on for `seg` at least. -/
theorem runs_cons_append {a : α} {seg : List α} (h : ∀ b ∈ seg, κ b = κ a) (rest : List α) :
    runs κ (a :: (seg ++ rest)) =
      (a :: (seg ++ rest.takeWhile (fun b => κ b = κ a))) ::
        runs κ (rest.dropWhile (fun b => κ b = κ a)) := by
  have hdec : ∀ b ∈ seg, decide (κ b = κ a) = true := fun b hb => by simpa using h b hb
  rw [runs_cons, List.takeWhile_append_of_pos hdec, List.dropWhile_append_of_pos hdec]

section

variable {le : K → K → Prop} [Std.Antisymm le] {a : α} {l : List α}

/-- The elements of a sorted list with the key of the first one come first. -/
theorem takeWhile_eq_filter_of_sorted (h : (a :: l).Pairwise (fun b c => le (κ b) (κ c))) :
    l.takeWhile (fun b => κ b = κ a) = l.filter (fun b => κ b = κ a) ∧
      l.dropWhile (fun b => κ b = κ a) = l.filter (fun b => ¬ κ b = κ a) := by
  rcases List.pairwise_cons.1 h with ⟨hhead, htail⟩
  clear h
  induction l with
  | nil =>
      exact ⟨rfl, rfl⟩
  | cons b l ih =>
      rcases List.forall_mem_cons.1 hhead with ⟨hb, hl⟩
      rcases List.pairwise_cons.1 htail with ⟨hbl, htail'⟩
      by_cases hkey : κ b = κ a
      · rcases ih hl htail' with ⟨htake, hdrop⟩
        simp [hkey, htake, hdrop]
      · -- past the first larger key no element has the key of `a` any more
        have hnone : ∀ c ∈ l, ¬ κ c = κ a := by
          intro c hc heq
          exact hkey (Std.Antisymm.antisymm _ _ (heq ▸ hbl c hc) hb)
        have hfilter : l.filter (fun c => κ c = κ a) = [] := by
          simpa using hnone
        have hall : l.filter (fun c => ¬ κ c = κ a) = l := by
          simpa using hnone
        constructor
        · rw [List.takeWhile_cons_of_neg (by simpa using hkey),
            List.filter_cons_of_neg (by simpa using hkey), hfilter]
        · rw [List.dropWhile_cons_of_neg (by simpa using hkey),
            List.filter_cons_of_pos (by simpa using hkey), hall]

/-- A sorted list has one run per key. -/
theorem runs_of_sorted (h : l.Pairwise (fun b c => le (κ b) (κ c))) :
    runs κ l = (l.map κ).eraseDups.map (fun k => l.filter (fun b => κ b = k)) := by
  induction hlen : l.length using Nat.strongRecOn generalizing l with
  | _ n ih =>
      cases l with
      | nil =>
          rw [runs_nil]
          rfl
      | cons a l =>
          rcases takeWhile_eq_filter_of_sorted h with ⟨htake, hdrop⟩
          have hsub : (l.filter (fun b => ¬ κ b = κ a)).Pairwise (fun b c => le (κ b) (κ c)) :=
            (List.pairwise_cons.1 h).2.sublist List.filter_sublist
          have hlt : (l.filter (fun b => ¬ κ b = κ a)).length < n := by
            rw [← hlen, List.length_cons]
            exact Nat.lt_succ_of_le (List.length_filter_le _ _)
          rw [runs_cons, htake, hdrop, ih _ hlt hsub rfl, List.map_cons, List.eraseDups_cons,
            List.map_cons]
          congr 1
          · simp
          · have hkeys : (l.filter (fun b => ¬ κ b = κ a)).map κ =
                (l.map κ).filter (fun k => !(k == κ a)) := by
              rw [List.filter_map]
              congr 1
              apply List.filter_congr
              intro b _
              by_cases hb : κ b = κ a <;> simp [hb]
            rw [hkeys]
            apply List.map_congr_left
            intro k hk
            have hne : k ≠ κ a := by
              have hmem := List.mem_eraseDups.1 hk
              simpa using (List.mem_filter.1 hmem).2
            rw [List.filter_cons, if_neg (by simpa using hne.symm), List.filter_filter]
            apply List.filter_congr
            intro b _
            by_cases hb : κ b = k
            · simp [hb, hne]
            · simp [hb]

/-- The runs of a sorted list are, for each of its keys, the elements with that key. -/
theorem runs_perm_of_sorted (h : l.Pairwise (fun b c => le (κ b) (κ c))) :
    (runs κ l).Perm ((l.map κ).dedup.map (fun k => l.filter (fun b => κ b = k))) := by
  rw [runs_of_sorted h]
  exact (eraseDups_perm_dedup _).map _

end

end Berk162
