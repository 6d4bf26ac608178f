import Mathlib.Data.List.Perm.Basic
import Mathlib.Tactic

/-!
# Extent — disjoint groups of consecutive cells

An allocator of consecutive cells (pages of a pool, sectors of a disk) marks the cells that are in
use and hands out `Extent`s.  `Owns used es` says that the extents `es` are pairwise disjoint and
all their cells are marked; `Tight used es` says that nothing else is marked.

The rules `Owns.cons` and `Owns.tail` (and their `Tight` counterparts) are the effect of one
allocation and of one release.
-/

namespace Berk162

/-- `len` consecutive cells, the first of them numbered `start`. -/
structure Extent where
  start : Nat
  len : Nat
  deriving DecidableEq, Repr

namespace Extent

instance : Membership Nat Extent where
  mem e a := e.start ≤ a ∧ a < e.start + e.len

theorem mem_def {e : Extent} {a : Nat} : a ∈ e ↔ e.start ≤ a ∧ a < e.start + e.len :=
  Iff.rfl

instance (e : Extent) (a : Nat) : Decidable (a ∈ e) := decidable_of_iff _ mem_def.symm

theorem start_mem {e : Extent} (h : 0 < e.len) : e.start ∈ e := by
  rw [mem_def]
  omega

/-- No cell lies in both extents. -/
def Disjoint (e f : Extent) : Prop := ∀ a, a ∈ e → a ∉ f

theorem Disjoint.symm {e f : Extent} (h : Disjoint e f) : Disjoint f e :=
  fun a hf he => h a he hf

instance : Std.Symm Disjoint := ⟨fun _ _ => Disjoint.symm⟩

theorem disjoint_of_le {e f : Extent} (h : e.start + e.len ≤ f.start) : Disjoint e f := by
  intro a he hf
  rw [mem_def] at he hf
  omega

/-- Parts of disjoint extents are disjoint. -/
theorem Disjoint.mono {e f e' f' : Extent} (h : Disjoint e f) (he : ∀ a, a ∈ e' → a ∈ e)
    (hf : ∀ a, a ∈ f' → a ∈ f) : Disjoint e' f' :=
  fun a hae haf => h a (he a hae) (hf a haf)

end Extent

/-! ## Ownership of marked cells -/

/-- The extents are pairwise disjoint, and each of their cells is marked. -/
structure Owns (used : Nat → Prop) (es : List Extent) : Prop where
  disjoint : es.Pairwise Extent.Disjoint
  marked : ∀ e ∈ es, ∀ a ∈ e, used a

/-- Every marked cell belongs to one of the extents. -/
def Tight (used : Nat → Prop) (es : List Extent) : Prop :=
  ∀ a, used a → ∃ e ∈ es, a ∈ e

section

variable {used used' : Nat → Prop} {e : Extent} {es fs : List Extent}

theorem Owns.nil : Owns used [] := ⟨List.Pairwise.nil, by simp⟩

theorem Owns.perm (h : Owns used es) (hp : es.Perm fs) : Owns used fs := by
  refine ⟨(hp.pairwise_iff (fun hd => hd.symm)).1 h.disjoint, fun e he => ?_⟩
  exact h.marked e (hp.mem_iff.2 he)

theorem Tight.perm (h : Tight used es) (hp : es.Perm fs) : Tight used fs := by
  intro a ha
  rcases h a ha with ⟨e, he, hae⟩
  exact ⟨e, hp.mem_iff.1 he, hae⟩

/-- Marking more cells keeps what is owned. -/
theorem Owns.mono (h : Owns used es) (hu : ∀ e ∈ es, ∀ a ∈ e, used a → used' a) :
    Owns used' es :=
  ⟨h.disjoint, fun e he a ha => hu e he a ha (h.marked e he a ha)⟩

/-- Allocation: an extent that was free joins the owned ones. -/
theorem Owns.cons (h : Owns used es) (hfree : ∀ a ∈ e, ¬ used a) :
    Owns (fun a => used a ∨ a ∈ e) (e :: es) := by
  constructor
  · refine List.pairwise_cons.2 ⟨fun f hf a hae haf => ?_, h.disjoint⟩
    exact hfree a hae (h.marked f hf a haf)
  · intro f hf a ha
    rcases List.mem_cons.1 hf with rfl | hf
    · exact Or.inr ha
    · exact Or.inl (h.marked f hf a ha)

/-- Release: an owned extent becomes free, and the others stay owned. -/
theorem Owns.tail (h : Owns used (e :: es)) : Owns (fun a => used a ∧ a ∉ e) es := by
  rcases List.pairwise_cons.1 h.disjoint with ⟨hhead, htail⟩
  refine ⟨htail, fun f hf a ha => ⟨h.marked f (List.mem_cons_of_mem _ hf) a ha, fun hae => ?_⟩⟩
  exact hhead f hf a hae ha

theorem Tight.cons (h : Tight used es) : Tight (fun a => used a ∨ a ∈ e) (e :: es) := by
  intro a ha
  rcases ha with ha | ha
  · rcases h a ha with ⟨f, hf, haf⟩
    exact ⟨f, List.mem_cons_of_mem _ hf, haf⟩
  · exact ⟨e, List.mem_cons_self, ha⟩

theorem Tight.tail (h : Tight used (e :: es)) : Tight (fun a => used a ∧ a ∉ e) es := by
  rintro a ⟨ha, hne⟩
  rcases h a ha with ⟨f, hf, haf⟩
  rcases List.mem_cons.1 hf with rfl | hf
  · exact absurd haf hne
  · exact ⟨f, hf, haf⟩

theorem Owns.congr (h : Owns used es) (hu : ∀ a, used a ↔ used' a) : Owns used' es :=
  h.mono (fun _ _ a _ ha => (hu a).1 ha)

theorem Tight.congr (h : Tight used es) (hu : ∀ a, used a ↔ used' a) : Tight used' es :=
  fun a ha => h a ((hu a).2 ha)

end

end Berk162
