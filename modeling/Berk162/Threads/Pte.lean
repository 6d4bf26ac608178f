import Berk162.Lib.Words
import Berk162.Threads.Vaddr

/-!
# Pte — `threads/pte.h` and the address conversions of `threads/vaddr.h`

An entry of a page directory or of a page table is a 32-bit word: the address of a page in its upper
20 bits and flags in the lower 12.
-/

namespace Berk162

def is_user_vaddr (vaddr : Nat) : Prop := vaddr < PHYS_BASE

instance (vaddr : Nat) : Decidable (is_user_vaddr vaddr) := Nat.decLt _ _

def vtop (vaddr : Nat) : Option Nat := do
  ASSERT (PHYS_BASE ≤ vaddr)
  return vaddr - PHYS_BASE

/-! ## Virtual addresses -/

def PTSHIFT : Nat := PGBITS

def PTBITS : Nat := 10

def PDSHIFT : Nat := PTSHIFT + PTBITS

/-- Page table index. -/
def pt_no (va : Nat) : Nat := va / 2 ^ PTSHIFT % 2 ^ PTBITS

/-- Page directory index. -/
def pd_no (va : Nat) : Nat := va / 2 ^ PDSHIFT

/-- The page with these two indices. -/
def page_at (i j : Nat) : Nat := i * 2 ^ PDSHIFT + j * 2 ^ PTSHIFT

theorem pt_no_eq (va : Nat) : pt_no va = va / 4096 % 1024 := rfl

theorem pd_no_eq (va : Nat) : pd_no va = va / 4194304 := rfl

theorem page_at_eq (i j : Nat) : page_at i j = i * 4194304 + j * 4096 := rfl

theorem pt_no_lt (va : Nat) : pt_no va < 1024 := Nat.mod_lt _ (by decide)

theorem pd_no_lt {va : Nat} (h : is_user_vaddr va) : pd_no va < 768 := by
  rw [is_user_vaddr, PHYS_BASE_eq] at h
  rw [pd_no_eq]
  omega

theorem page_at_no (va : Nat) : page_at (pd_no va) (pt_no va) = pg_round_down va := by
  rw [page_at_eq, pd_no_eq, pt_no_eq, pg_round_down, pg_ofs, PGSIZE_eq]
  omega

/-- A page of user memory by its indices. -/
theorem page_at_injective {i j i' j' : Nat} (hj : j < 1024) (hj' : j' < 1024)
    (h : page_at i j = page_at i' j') : i = i' ∧ j = j' := by
  rw [page_at_eq, page_at_eq] at h
  omega

/-! ## Entries -/

def PTE_ADDR : BitVec 32 := 0xfffff000

def PTE_P : BitVec 32 := 0x1

def PTE_W : BitVec 32 := 0x2

def PTE_U : BitVec 32 := 0x4

def PTE_A : BitVec 32 := 0x20

def PTE_D : BitVec 32 := 0x40

def pde_create (pt : Nat) : Option (BitVec 32) := do
  ASSERT (pg_ofs pt = 0)
  let p ← vtop pt
  return BitVec.ofNat 32 p ||| PTE_U ||| PTE_P ||| PTE_W

def pde_get_pt (pde : BitVec 32) : Option Nat := do
  ASSERT (pde &&& PTE_P ≠ 0)
  ptov (pde &&& PTE_ADDR).toNat

def pte_create_kernel (page : Nat) (writable : Bool) : Option (BitVec 32) := do
  ASSERT (pg_ofs page = 0)
  let p ← vtop page
  return BitVec.ofNat 32 p ||| PTE_P ||| (if writable then PTE_W else 0)

def pte_create_user (page : Nat) (writable : Bool) : Option (BitVec 32) := do
  let e ← pte_create_kernel page writable
  return e ||| PTE_U

def pte_get_page (pte : BitVec 32) : Option Nat := ptov (pte &&& PTE_ADDR).toNat

/-! ## Flags -/

/-- `e & f` as a condition. -/
def flag (e f : BitVec 32) : Bool := decide (e &&& f ≠ 0)

section

variable {e f g : BitVec 32}

theorem flag_eq_true : flag e f = true ↔ e &&& f ≠ 0 := decide_eq_true_iff

theorem or_and_of_disjoint (h : f &&& g = 0) : (e ||| f) &&& g = e &&& g := by
  rw [BitVec.and_or_distrib_right, h]
  exact BitVec.or_zero

theorem and_not_and_of_disjoint (h : ~~~f &&& g = g) : e &&& ~~~f &&& g = e &&& g := by
  rw [BitVec.and_assoc, h]

theorem flag_or (h : f &&& g = 0) : flag (e ||| f) g = flag e g := by
  rw [flag, flag, or_and_of_disjoint h]

theorem flag_and_not (h : ~~~f &&& g = g) : flag (e &&& ~~~f) g = flag e g := by
  rw [flag, flag, and_not_and_of_disjoint h]

theorem flag_or_self (h : f &&& f ≠ 0) : flag (e ||| f) f = true := by
  rw [flag_eq_true, BitVec.and_or_distrib_right]
  intro hzero
  exact h (BitVec.or_eq_zero_iff.1 hzero).2

theorem flag_and_not_self : flag (e &&& ~~~f) f = false := by
  have hzero : e &&& ~~~f &&& f = 0 := by
    rw [BitVec.and_assoc, BitVec.not_and_self]
    exact BitVec.and_zero
  rw [flag, hzero]
  rfl

/-- The address of a page has no flag bits. -/
theorem page_and_addr {p : Nat} (hp : p % PGSIZE = 0) :
    BitVec.ofNat 32 p &&& PTE_ADDR = BitVec.ofNat 32 p := by
  have hmask : ∀ i : Fin 32, 12 ≤ i.val → PTE_ADDR.getLsbD i = true := by decide
  have hmul : p = 2 ^ 12 * (p / 2 ^ 12) := by
    rw [PGSIZE_eq] at hp
    omega
  ext i hi
  rw [BitVec.getElem_and]
  by_cases hlow : i < 12
  · -- a flag bit, which the address does not have
    have hzero : (BitVec.ofNat 32 p)[i] = false := by
      rw [← BitVec.getLsbD_eq_getElem, BitVec.getLsbD_ofNat, hmul, Nat.testBit_two_pow_mul]
      simp [hlow]
    rw [hzero, Bool.false_and]
  · have hone := hmask ⟨i, hi⟩ (by simpa using hlow)
    rw [BitVec.getLsbD_eq_getElem hi] at hone
    rw [hone, Bool.and_true]

theorem page_and_flag {p : Nat} (hp : p % PGSIZE = 0) (hf : PTE_ADDR &&& f = 0) :
    BitVec.ofNat 32 p &&& f = 0 := by
  rw [← page_and_addr hp, BitVec.and_assoc, hf]
  exact BitVec.and_zero

/-- The address bits of an entry that was made from a page's address and flags. -/
theorem addr_of_page {p : Nat} (hp : p % PGSIZE = 0) (hlt : p < 2 ^ 32) (hf : f &&& PTE_ADDR = 0) :
    ((BitVec.ofNat 32 p ||| f) &&& PTE_ADDR).toNat = p := by
  rw [or_and_of_disjoint hf, page_and_addr hp, BitVec.toNat_ofNat, Nat.mod_eq_of_lt hlt]

end

/-- The entry `e` of a page directory points to the page table `pt`. -/
structure IsPde (e : BitVec 32) (pt : Nat) : Prop where
  present : flag e PTE_P = true
  table : pde_get_pt e = some pt

/-- The entry `e` of a page table maps a user page to the frame at `page`. -/
structure IsPte (e : BitVec 32) (page : Nat) (writable accessed dirty : Bool) : Prop where
  present : flag e PTE_P = true
  user : flag e PTE_U = true
  page : pte_get_page e = some page
  writable : flag e PTE_W = writable
  accessed : flag e PTE_A = accessed
  dirty : flag e PTE_D = dirty

theorem IsPde.ne_zero {e : BitVec 32} {pt : Nat} (h : IsPde e pt) : e ≠ 0 := by
  rintro rfl
  exact absurd h.present (by decide)

/-- A page of the kernel's memory. -/
structure KernelPage (page : Nat) : Prop where
  aligned : page % PGSIZE = 0
  ge : PHYS_BASE ≤ page
  lt : page < WORD

namespace KernelPage

variable {page : Nat}

theorem vtop_eq (h : KernelPage page) : vtop page = some (page - PHYS_BASE) := by
  rw [vtop, ASSERT_pos h.ge]
  rfl

theorem vtop_aligned (h : KernelPage page) : (page - PHYS_BASE) % PGSIZE = 0 := by
  have hal := h.aligned
  rw [PGSIZE_eq] at hal ⊢
  rw [PHYS_BASE_eq]
  omega

theorem vtop_lt (h : KernelPage page) : page - PHYS_BASE < 2 ^ 32 := by
  have hlt := h.lt
  rw [WORD_eq] at hlt
  omega

theorem ptov_vtop (h : KernelPage page) : ptov (page - PHYS_BASE) = some page := by
  have hback : page - PHYS_BASE + PHYS_BASE = page := Nat.sub_add_cancel h.ge
  rw [ptov_eq (hback.symm ▸ h.lt), hback]

theorem pde_create_spec (h : KernelPage page) : ∃ e, pde_create page = some e ∧ IsPde e page := by
  have hofs : pg_ofs page = 0 := h.aligned
  have hpresent : flag (BitVec.ofNat 32 (page - PHYS_BASE) ||| PTE_U ||| PTE_P ||| PTE_W) PTE_P =
      true := by
    rw [flag_or (by decide)]
    exact flag_or_self (by decide)
  refine ⟨_, ?_, hpresent, ?_⟩
  · rw [pde_create, ASSERT_pos hofs, h.vtop_eq]
    simp only [Option.bind_eq_bind, Option.bind_some, Option.pure_def]
  · rw [pde_get_pt, ASSERT_pos (flag_eq_true.1 hpresent), Option.bind_eq_bind, Option.bind_some,
      BitVec.or_assoc, BitVec.or_assoc, addr_of_page h.vtop_aligned h.vtop_lt (by decide)]
    exact h.ptov_vtop

theorem pte_create_user_spec (h : KernelPage page) (writable : Bool) :
    ∃ e, pte_create_user page writable = some e ∧ IsPte e page writable false false := by
  have hofs : pg_ofs page = 0 := h.aligned
  have hal := h.vtop_aligned
  set p := BitVec.ofNat 32 (page - PHYS_BASE) with hp
  set w := if writable then PTE_W else 0 with hw
  have hbits : ∀ g, PTE_ADDR &&& g = 0 → flag (p ||| PTE_P ||| w ||| PTE_U) g =
      flag (PTE_P ||| w ||| PTE_U) g := by
    intro g hg
    have hzero : p &&& g = 0 := page_and_flag hal hg
    have hdrop : (p ||| (PTE_P ||| w ||| PTE_U)) &&& g = (PTE_P ||| w ||| PTE_U) &&& g := by
      rw [BitVec.and_or_distrib_right, hzero]
      exact BitVec.zero_or
    have hassoc : p ||| PTE_P ||| w ||| PTE_U = p ||| (PTE_P ||| w ||| PTE_U) := by
      simp only [BitVec.or_assoc]
    rw [flag, flag, hassoc, hdrop]
  refine ⟨p ||| PTE_P ||| w ||| PTE_U, ?_, ?_, ?_, ?_, ?_, ?_, ?_⟩
  · rw [pte_create_user, pte_create_kernel, ASSERT_pos hofs, h.vtop_eq]
    simp only [Option.bind_eq_bind, Option.bind_some, Option.pure_def, hp, hw]
  · rw [hbits _ (by decide)]
    cases writable <;> decide
  · rw [hbits _ (by decide)]
    cases writable <;> decide
  · rw [pte_get_page, BitVec.or_assoc, BitVec.or_assoc, addr_of_page hal h.vtop_lt]
    · exact h.ptov_vtop
    · cases writable <;> decide
  · rw [hbits _ (by decide)]
    cases writable <;> decide
  · rw [hbits _ (by decide)]
    cases writable <;> decide
  · rw [hbits _ (by decide)]
    cases writable <;> decide

end KernelPage

/-! ### Changing a flag -/

namespace IsPte

variable {e : BitVec 32} {page : Nat} {writable accessed dirty : Bool}

theorem set_dirty (h : IsPte e page writable accessed dirty) :
    IsPte (e ||| PTE_D) page writable accessed true where
  present := (flag_or (by decide)).trans h.present
  user := (flag_or (by decide)).trans h.user
  page := by rw [pte_get_page, or_and_of_disjoint (by decide)]; exact h.page
  writable := (flag_or (by decide)).trans h.writable
  accessed := (flag_or (by decide)).trans h.accessed
  dirty := flag_or_self (by decide)

theorem clear_dirty (h : IsPte e page writable accessed dirty) :
    IsPte (e &&& ~~~PTE_D) page writable accessed false where
  present := (flag_and_not (by decide)).trans h.present
  user := (flag_and_not (by decide)).trans h.user
  page := by rw [pte_get_page, and_not_and_of_disjoint (by decide)]; exact h.page
  writable := (flag_and_not (by decide)).trans h.writable
  accessed := (flag_and_not (by decide)).trans h.accessed
  dirty := flag_and_not_self

theorem set_accessed (h : IsPte e page writable accessed dirty) :
    IsPte (e ||| PTE_A) page writable true dirty where
  present := (flag_or (by decide)).trans h.present
  user := (flag_or (by decide)).trans h.user
  page := by rw [pte_get_page, or_and_of_disjoint (by decide)]; exact h.page
  writable := (flag_or (by decide)).trans h.writable
  accessed := flag_or_self (by decide)
  dirty := (flag_or (by decide)).trans h.dirty

theorem clear_accessed (h : IsPte e page writable accessed dirty) :
    IsPte (e &&& ~~~PTE_A) page writable false dirty where
  present := (flag_and_not (by decide)).trans h.present
  user := (flag_and_not (by decide)).trans h.user
  page := by rw [pte_get_page, and_not_and_of_disjoint (by decide)]; exact h.page
  writable := (flag_and_not (by decide)).trans h.writable
  accessed := flag_and_not_self
  dirty := (flag_and_not (by decide)).trans h.dirty

end IsPte

end Berk162
