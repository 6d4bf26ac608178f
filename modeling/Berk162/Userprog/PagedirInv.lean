import Berk162.Threads.PallocMem
import Berk162.Userprog.Pagedir

/-!
# PagedirInv — a page directory as a map from user pages to frames

`IsDir` says what the words of a directory and of its page tables are: `pt` gives the page table for
each directory index, and `map` what is mapped at each user page.  A changed word of a page table
changes `map` at one page; a new page table changes nothing.
-/

namespace Berk162

/-- What a user page is mapped to. -/
structure Mapping where
  frame : Group
  writable : Bool
  accessed : Bool
  dirty : Bool
  deriving DecidableEq, Repr

abbrev UserMap := Nat → Option Mapping

/-- The page table entry `e` says what the map says. -/
def EntryOf (e : BitVec 32) : Option Mapping → Prop
  | none => flag e PTE_P = false
  | some m => IsPte e m.frame.pages m.writable m.accessed m.dirty

/-- The page directory entry `e` says whether there is a page table, and where. -/
def DirEntryOf (e : BitVec 32) : Option Nat → Prop
  | none => e = 0
  | some t => IsPde e t

/-- The bytes of a page. -/
def page_bytes (page : Nat) : Extent := ⟨page, PGSIZE⟩

theorem mem_page_bytes {page q : Nat} : q ∈ page_bytes page ↔ page ≤ q ∧ q < page + 4096 :=
  Extent.mem_def

/-- The words of a page directory and its page tables. -/
structure IsDir (mem : Memory) (pd : Nat) (pt : Nat → Option Nat) (map : UserMap)
    (kernel : Nat → BitVec 32) : Prop where
  pde : ∀ i, i < 768 → DirEntryOf (word_at mem (pd + 4 * i)) (pt i)
  pte : ∀ i, i < 768 → ∀ t, pt i = some t → ∀ j, j < 1024 →
    EntryOf (word_at mem (t + 4 * j)) (map (page_at i j))
  unmapped : ∀ i, i < 768 → pt i = none → ∀ j, j < 1024 → map (page_at i j) = none
  user : ∀ p, map p ≠ none → ∃ i j, i < 768 ∧ j < 1024 ∧ p = page_at i j
  kernel_half : ∀ i, 768 ≤ i → i < 1024 → word_at mem (pd + 4 * i) = kernel i

/-- The directory and its page tables are pages of the kernel that do not overlap. -/
structure TablesApart (pd : Nat) (pt : Nat → Option Nat) : Prop where
  pd_page : KernelPage pd
  table_page : ∀ i t, i < 768 → pt i = some t → KernelPage t
  pd_table : ∀ i t, i < 768 → pt i = some t → Extent.Disjoint (page_bytes pd) (page_bytes t)
  tables : ∀ i i' t t', i < 768 → i' < 768 → pt i = some t → pt i' = some t' → i ≠ i' →
    Extent.Disjoint (page_bytes t) (page_bytes t')

/-! ## Words of pages -/

section

variable {mem mem' : Memory} {page page' k k' : Nat} {e : BitVec 32}

/-- A word of a page depends on the bytes of the page alone. -/
theorem word_of_page (h : ∀ q ∈ page_bytes page, mem' q = mem q) (hk : k < 1024) :
    word_at mem' (page + 4 * k) = word_at mem (page + 4 * k) := by
  refine word_at_congr fun q hlo hhi => h q ?_
  rw [mem_page_bytes]
  omega

theorem word_of_page_zero (h : ∀ q ∈ page_bytes page, mem q = 0) (hk : k < 1024) :
    word_at mem (page + 4 * k) = 0 := by
  refine word_at_zero fun q hlo hhi => h q ?_
  rw [mem_page_bytes]
  omega

theorem put_word_of_page (hk : k < 1024) {q : Nat} (hq : q ∉ page_bytes page) :
    put_word mem (page + 4 * k) e q = mem q := by
  rw [mem_page_bytes] at hq
  exact put_word_of_not_mem (by omega)

theorem word_of_other_page (h : Extent.Disjoint (page_bytes page') (page_bytes page))
    (hk : k < 1024) (hk' : k' < 1024) :
    word_at (put_word mem (page + 4 * k) e) (page' + 4 * k') = word_at mem (page' + 4 * k') :=
  word_of_page (fun q hq => put_word_of_page hk (h q hq)) hk'

theorem word_of_same_page (h : k' ≠ k) :
    word_at (put_word mem (page + 4 * k) e) (page + 4 * k') = word_at mem (page + 4 * k') :=
  word_at_put_word_of_disjoint (by omega)

end

/-! ## Changes of words -/

namespace IsDir

variable {mem mem' : Memory} {pd : Nat} {pt : Nat → Option Nat} {map : UserMap}
  {kernel : Nat → BitVec 32} {i j t : Nat} {e : BitVec 32}

/-- A directory is the bytes of its own page and of its page tables. -/
theorem congr (h : IsDir mem pd pt map kernel) (hpd : ∀ q ∈ page_bytes pd, mem' q = mem q)
    (hpt : ∀ i t, i < 768 → pt i = some t → ∀ q ∈ page_bytes t, mem' q = mem q) :
    IsDir mem' pd pt map kernel where
  pde i hi := by
    rw [word_of_page hpd (by omega)]
    exact h.pde i hi
  pte i hi t ht j hj := by
    rw [word_of_page (hpt i t hi ht) hj]
    exact h.pte i hi t ht j hj
  unmapped := h.unmapped
  user := h.user
  kernel_half i hlo hhi := by
    rw [word_of_page hpd hhi]
    exact h.kernel_half i hlo hhi

/-- A new entry of a page table changes the map at its page. -/
theorem put_pte (h : IsDir mem pd pt map kernel) (hapart : TablesApart pd pt) (hi : i < 768)
    (hj : j < 1024) (ht : pt i = some t) {m : Option Mapping} (he : EntryOf e m) :
    IsDir (put_word mem (t + 4 * j) e) pd pt (Function.update map (page_at i j) m) kernel where
  pde k hk := by
    rw [word_of_other_page (hapart.pd_table i t hi ht) hj (by omega)]
    exact h.pde k hk
  pte i' hi' t' ht' j' hj' := by
    by_cases hii : i' = i
    · subst hii
      rw [ht, Option.some.injEq] at ht'
      subst ht'
      by_cases hjj : j' = j
      · subst hjj
        rw [word_at_put_word, Function.update_self]
        exact he
      · have hne : page_at i' j' ≠ page_at i' j := fun heq =>
          hjj (page_at_injective hj' hj heq).2
        rw [word_of_same_page hjj, Function.update_of_ne hne]
        exact h.pte i' hi' t ht j' hj'
    · have hne : page_at i' j' ≠ page_at i j := fun heq => hii (page_at_injective hj' hj heq).1
      rw [word_of_other_page (hapart.tables i' i t' t hi' hi ht' ht hii) hj hj',
        Function.update_of_ne hne]
      exact h.pte i' hi' t' ht' j' hj'
  unmapped i' hi' hnone j' hj' := by
    have hne : page_at i' j' ≠ page_at i j := by
      intro heq
      rw [(page_at_injective hj' hj heq).1, ht] at hnone
      cases hnone
    rw [Function.update_of_ne hne]
    exact h.unmapped i' hi' hnone j' hj'
  user p hp := by
    by_cases hpe : p = page_at i j
    · exact ⟨i, j, hi, hj, hpe⟩
    · rw [Function.update_of_ne hpe] at hp
      exact h.user p hp
  kernel_half k hlo hhi := by
    rw [word_of_other_page (hapart.pd_table i t hi ht) hj hhi]
    exact h.kernel_half k hlo hhi

/-- An empty page table is added to the directory. -/
theorem put_pde (h : IsDir mem pd pt map kernel) (hi : i < 768) (hnone : pt i = none)
    (he : IsPde e t) (hzero : ∀ q ∈ page_bytes t, mem q = 0)
    (hapart : TablesApart pd (Function.update pt i (some t))) :
    IsDir (put_word mem (pd + 4 * i) e) pd (Function.update pt i (some t)) map kernel where
  pde k hk := by
    by_cases hki : k = i
    · subst hki
      rw [word_at_put_word, Function.update_self]
      exact he
    · rw [word_of_same_page hki, Function.update_of_ne hki]
      exact h.pde k hk
  pte i' hi' t' ht' j' hj' := by
    have hdis := (hapart.pd_table i' t' hi' ht').symm
    rw [word_of_other_page hdis (by omega) hj']
    by_cases hii : i' = i
    · subst hii
      rw [Function.update_self, Option.some.injEq] at ht'
      subst ht'
      rw [word_of_page_zero hzero hj', h.unmapped i' hi' hnone j' hj']
      rfl
    · rw [Function.update_of_ne hii] at ht'
      exact h.pte i' hi' t' ht' j' hj'
  unmapped i' hi' hn j' hj' := by
    by_cases hii : i' = i
    · subst hii
      rw [Function.update_self] at hn
      cases hn
    · rw [Function.update_of_ne hii] at hn
      exact h.unmapped i' hi' hn j' hj'
  user := h.user
  kernel_half k hlo hhi := by
    rw [word_of_same_page (by omega)]
    exact h.kernel_half k hlo hhi

end IsDir

/-! ## The functions that look up an entry -/

theorem KernelPage.ne_null {page : Nat} (h : KernelPage page) : page ≠ NULL := by
  have hge := h.ge
  rw [PHYS_BASE_eq] at hge
  rw [NULL]
  omega

/-- Where the page table entry for `va` is, if there is one. -/
def pte_ptr (pt : Nat → Option Nat) (va : Nat) : Nat :=
  match pt (pd_no va) with
  | none => NULL
  | some t => t + 4 * pt_no va

section

variable {s : Palloc} {pd : Nat} {pt : Nat → Option Nat} {map : UserMap}
  {kernel : Nat → BitVec 32} {va t : Nat}

theorem pte_ptr_none (h : pt (pd_no va) = none) : pte_ptr pt va = NULL := by
  rw [pte_ptr, h]

theorem pte_ptr_some (h : pt (pd_no va) = some t) : pte_ptr pt va = t + 4 * pt_no va := by
  rw [pte_ptr, h]

theorem pte_ptr_ne_null (ha : TablesApart pd pt) (hu : is_user_vaddr va)
    (h : pt (pd_no va) = some t) : pte_ptr pt va ≠ NULL := by
  have hne := (ha.table_page _ t (pd_no_lt hu) h).ne_null
  rw [NULL] at hne
  rw [pte_ptr_some h, NULL]
  omega

namespace IsDir

/-- What the entry found for `va` says. -/
theorem entry (h : IsDir s.mem pd pt map kernel) (hu : is_user_vaddr va)
    (ht : pt (pd_no va) = some t) :
    EntryOf (word_at s.mem (pte_ptr pt va)) (map (pg_round_down va)) := by
  have hentry := h.pte _ (pd_no_lt hu) t ht _ (pt_no_lt va)
  rwa [page_at_no, ← pte_ptr_some ht] at hentry

/-- Where there is no page table, nothing is mapped. -/
theorem map_none (h : IsDir s.mem pd pt map kernel) (hu : is_user_vaddr va)
    (ht : pt (pd_no va) = none) : map (pg_round_down va) = none := by
  have hnone := h.unmapped _ (pd_no_lt hu) ht _ (pt_no_lt va)
  rwa [page_at_no] at hnone

/-- Looking up an entry for which there is a page table, or which is not to be created. -/
theorem lookup (h : IsDir s.mem pd pt map kernel) (ha : TablesApart pd pt) (hu : is_user_vaddr va)
    {create : Bool} (hc : create = false ∨ ∃ t, pt (pd_no va) = some t) :
    lookup_page s pd va create = some (s, pte_ptr pt va) := by
  have hpde := h.pde _ (pd_no_lt hu)
  rw [lookup_page, ASSERT_pos ha.pd_page.ne_null, ASSERT_pos (Or.inr hu)]
  simp only [Option.bind_eq_bind, Option.bind_some]
  cases ht : pt (pd_no va) with
  | none =>
      have hfalse : create = false := hc.resolve_right (by simp [ht])
      rw [ht, DirEntryOf] at hpde
      rw [if_pos hpde, hfalse, pte_ptr_none ht]
      rfl
  | some t =>
      rw [ht, DirEntryOf] at hpde
      rw [if_neg hpde.ne_zero, hpde.table, pte_ptr_some ht]
      rfl

theorem pagedir_get_page (h : IsDir s.mem pd pt map kernel) (ha : TablesApart pd pt)
    (hf : ∀ p m, map p = some m → KernelPage m.frame.pages) (hu : is_user_vaddr va) :
    pagedir_get_page s pd va = some (match map (pg_round_down va) with
      | some m => m.frame.pages + pg_ofs va
      | none => NULL) := by
  rw [Berk162.pagedir_get_page, ASSERT_pos hu, h.lookup ha hu (Or.inl rfl)]
  simp only [Option.bind_eq_bind, Option.bind_some]
  cases ht : pt (pd_no va) with
  | none =>
      rw [pte_ptr_none ht, if_neg fun hc => hc.1 rfl, h.map_none hu ht]
      rfl
  | some t =>
      have hne := pte_ptr_ne_null ha hu ht
      have he := h.entry hu ht
      cases hm : map (pg_round_down va) with
      | none =>
          rw [hm] at he
          have hnot : ¬ word_at s.mem (pte_ptr pt va) &&& PTE_P ≠ 0 := of_decide_eq_false he
          rw [if_neg fun hc => hnot hc.2]
          rfl
      | some m =>
          rw [hm] at he
          have hframe := hf _ m hm
          have hfit : m.frame.pages + pg_ofs va < WORD := by
            have hal := hframe.aligned
            have hlt := hframe.lt
            rw [PGSIZE_eq] at hal
            rw [WORD_eq] at hlt ⊢
            rw [pg_ofs, PGSIZE_eq]
            omega
          rw [if_pos ⟨hne, flag_eq_true.1 he.present⟩, he.page, Option.bind_some,
            size_add_eq hfit]
          rfl

/-- A flag of a page that is mapped. -/
theorem pagedir_is (h : IsDir s.mem pd pt map kernel) (ha : TablesApart pd pt)
    (hu : is_user_vaddr va) {f : BitVec 32} {m : Mapping} (hm : map (pg_round_down va) = some m) :
    pagedir_is f s pd va = some (flag (word_at s.mem (pte_ptr pt va)) f) ∧
      IsPte (word_at s.mem (pte_ptr pt va)) m.frame.pages m.writable m.accessed m.dirty := by
  rw [Berk162.pagedir_is, h.lookup ha hu (Or.inl rfl)]
  simp only [Option.bind_eq_bind, Option.bind_some]
  cases ht : pt (pd_no va) with
  | none =>
      rw [h.map_none hu ht] at hm
      cases hm
  | some t =>
      have he := h.entry hu ht
      rw [hm] at he
      refine ⟨?_, he⟩
      simp only [pte_ptr_ne_null ha hu ht, ne_eq, not_false_eq_true, true_and, Option.pure_def,
        flag]

end IsDir

end

/-! ## The functions that change an entry -/

/-- `f` is the flag of an entry that `set` changes in a mapping. -/
structure FlagOf (f : BitVec 32) (set : Bool → Mapping → Mapping) : Prop where
  frame : ∀ v m, (set v m).frame = m.frame
  or_present : f &&& PTE_P = 0
  and_present : ~~~f &&& PTE_P = PTE_P
  on : ∀ e m, EntryOf e (some m) → EntryOf (e ||| f) (some (set true m))
  off : ∀ e m, EntryOf e (some m) → EntryOf (e &&& ~~~f) (some (set false m))

def Mapping.setDirty (v : Bool) (m : Mapping) : Mapping := { m with dirty := v }

def Mapping.setAccessed (v : Bool) (m : Mapping) : Mapping := { m with accessed := v }

theorem flagOf_dirty : FlagOf PTE_D Mapping.setDirty where
  frame _ _ := rfl
  or_present := by decide
  and_present := by decide
  on _ _ h := IsPte.set_dirty h
  off _ _ h := IsPte.clear_dirty h

theorem flagOf_accessed : FlagOf PTE_A Mapping.setAccessed where
  frame _ _ := rfl
  or_present := by decide
  and_present := by decide
  on _ _ h := IsPte.set_accessed h
  off _ _ h := IsPte.clear_accessed h

/-- The bytes outside of the directory and its page tables. -/
def Outside (pd : Nat) (pt : Nat → Option Nat) (q : Nat) : Prop :=
  q ∉ page_bytes pd ∧ ∀ i t, i < 768 → pt i = some t → q ∉ page_bytes t

/-- A call has stored words in page tables, and `map'` is mapped now. -/
structure Changed (s : Palloc) (pd : Nat) (pt : Nat → Option Nat) (map' : UserMap)
    (kernel : Nat → BitVec 32) (s' : Palloc) : Prop where
  alloc : s' = s.withMem s'.mem
  dir : IsDir s'.mem pd pt map' kernel
  frame : ∀ q, Outside pd pt q → s'.mem q = s.mem q

section

variable {s : Palloc} {pd : Nat} {pt : Nat → Option Nat} {map : UserMap}
  {kernel : Nat → BitVec 32} {va t : Nat}

namespace IsDir

theorem unchanged (h : IsDir s.mem pd pt map kernel) : Changed s pd pt map kernel s :=
  ⟨rfl, h, fun _ _ => rfl⟩

/-- One word of a page table is stored. -/
theorem changed (h : IsDir s.mem pd pt map kernel) (ha : TablesApart pd pt) (hu : is_user_vaddr va)
    (ht : pt (pd_no va) = some t) {e : BitVec 32} {m : Option Mapping} (he : EntryOf e m) :
    Changed s pd pt (Function.update map (pg_round_down va) m) kernel
      (s.withMem (put_word s.mem (pte_ptr pt va) e)) := by
  have hput := h.put_pte ha (pd_no_lt hu) (pt_no_lt va) ht he
  rw [page_at_no, ← pte_ptr_some ht] at hput
  refine ⟨rfl, hput, fun q hq => ?_⟩
  rw [pte_ptr_some ht]
  exact put_word_of_page (pt_no_lt va) (hq.2 _ t (pd_no_lt hu) ht)

theorem pagedir_set (h : IsDir s.mem pd pt map kernel) (ha : TablesApart pd pt)
    (hu : is_user_vaddr va) {f : BitVec 32} {set : Bool → Mapping → Mapping} (hf : FlagOf f set)
    (value : Bool) :
    ∃ s', pagedir_set f s pd va value = some s' ∧
      Changed s pd pt (Function.update map (pg_round_down va)
        ((map (pg_round_down va)).map (set value))) kernel s' := by
  rw [Berk162.pagedir_set, h.lookup ha hu (Or.inl rfl)]
  simp only [Option.bind_eq_bind, Option.bind_some]
  cases ht : pt (pd_no va) with
  | none =>
      rw [pte_ptr_none ht, if_neg (not_not.2 rfl), h.map_none hu ht, Option.map_none]
      refine ⟨s, rfl, ?_⟩
      rw [← h.map_none hu ht, Function.update_eq_self]
      exact h.unchanged
  | some t =>
      have he := h.entry hu ht
      rw [if_pos (pte_ptr_ne_null ha hu ht)]
      cases value with
      | true =>
          refine ⟨_, rfl, h.changed ha hu ht ?_⟩
          cases hm : map (pg_round_down va) with
          | none =>
              rw [hm] at he
              exact (flag_or hf.or_present).trans he
          | some m =>
              rw [hm] at he
              exact hf.on _ m he
      | false =>
          refine ⟨_, rfl, h.changed ha hu ht ?_⟩
          cases hm : map (pg_round_down va) with
          | none =>
              rw [hm] at he
              exact (flag_and_not hf.and_present).trans he
          | some m =>
              rw [hm] at he
              exact hf.off _ m he

theorem pagedir_clear_page (h : IsDir s.mem pd pt map kernel) (ha : TablesApart pd pt)
    (hofs : pg_ofs va = 0) (hu : is_user_vaddr va) :
    ∃ s', pagedir_clear_page s pd va = some s' ∧
      Changed s pd pt (Function.update map va none) kernel s' := by
  have hround : pg_round_down va = va := by rw [pg_round_down, hofs, Nat.sub_zero]
  rw [Berk162.pagedir_clear_page, ASSERT_pos hofs, ASSERT_pos hu, h.lookup ha hu (Or.inl rfl)]
  simp only [Option.bind_eq_bind, Option.bind_some]
  by_cases hpresent : pte_ptr pt va ≠ NULL ∧ word_at s.mem (pte_ptr pt va) &&& PTE_P ≠ 0
  · rw [if_pos hpresent]
    cases ht : pt (pd_no va) with
    | none => exact absurd (pte_ptr_none ht) hpresent.1
    | some t =>
        have hnone : EntryOf (word_at s.mem (pte_ptr pt va) &&& ~~~PTE_P) none := flag_and_not_self
        have hchanged := h.changed ha hu ht hnone
        rw [hround] at hchanged
        exact ⟨_, rfl, hchanged⟩
  · rw [if_neg hpresent]
    -- nothing was mapped
    have hm : map va = none := by
      rw [← hround]
      cases ht : pt (pd_no va) with
      | none => exact h.map_none hu ht
      | some t =>
          have he := h.entry hu ht
          cases hm : map (pg_round_down va) with
          | none => rfl
          | some m =>
              rw [hm] at he
              exact absurd ⟨pte_ptr_ne_null ha hu ht, flag_eq_true.1 he.present⟩ hpresent
    refine ⟨s, rfl, ?_⟩
    rw [← hm, Function.update_eq_self]
    exact h.unchanged

end IsDir

end

end Berk162
