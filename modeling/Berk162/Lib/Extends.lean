import Mathlib.Logic.Function.Basic
import Mathlib.Tactic

/-!
# Extends — partial functions that are extended piece by piece

A partial function is one to `Option`.  `Extends f g dom val` says that `g` is `f` with the values
`val` on `dom`, where `f` had none; `ExtendsAll` says the same of a list of pieces, which are then
apart from each other.
-/

namespace Berk162

variable {α β ι : Type*}

structure Extends (f g : α → Option β) (dom : α → Prop) (val : α → β) : Prop where
  free : ∀ a, dom a → f a = none
  mapped : ∀ a, dom a → g a = some (val a)
  other : ∀ a, ¬ dom a → g a = f a

/-- The pieces `is`, each with its domain and its values. -/
structure ExtendsAll (f g : α → Option β) (dom : ι → α → Prop) (val : ι → α → β) (is : List ι) :
    Prop where
  free : ∀ i ∈ is, ∀ a, dom i a → f a = none
  mapped : ∀ i ∈ is, ∀ a, dom i a → g a = some (val i a)
  other : ∀ a, (∀ i ∈ is, ¬ dom i a) → g a = f a
  apart : is.Pairwise fun i j => ∀ a, dom i a → ¬ dom j a

namespace Extends

variable {f g h : α → Option β} {dom dom' : α → Prop} {val val' : α → β}

theorem of_empty (hdom : ∀ a, ¬ dom a) : Extends f f dom val :=
  ⟨fun a ha => absurd ha (hdom a), fun a ha => absurd ha (hdom a), fun _ _ => rfl⟩

theorem update [DecidableEq α] {a : α} (hfree : f a = none) :
    Extends f (Function.update f a (some (val a))) (fun b => b = a) val := by
  refine ⟨?_, ?_, fun b hb => Function.update_of_ne hb _ _⟩
  · rintro b rfl
    exact hfree
  · rintro b rfl
    exact Function.update_self _ _ _

/-- Two pieces one after the other. -/
theorem trans (hfg : Extends f g dom val) (hgh : Extends g h dom' val) :
    Extends f h (fun a => dom a ∨ dom' a) val := by
  have hapart : ∀ a, dom a → ¬ dom' a := by
    intro a ha ha'
    have hfree := hgh.free a ha'
    rw [hfg.mapped a ha] at hfree
    cases hfree
  refine ⟨?_, ?_, fun a ha => ?_⟩
  · rintro a (ha | ha)
    · exact hfg.free a ha
    · rw [← hfg.other a fun ha' => hapart a ha' ha]
      exact hgh.free a ha
  · rintro a (ha | ha)
    · rw [hgh.other a (hapart a ha)]
      exact hfg.mapped a ha
    · exact hgh.mapped a ha
  · rw [not_or] at ha
    exact (hgh.other a ha.2).trans (hfg.other a ha.1)

theorem congr (hfg : Extends f g dom val) (hdom : ∀ a, dom' a ↔ dom a)
    (hval : ∀ a, dom a → val' a = val a) : Extends f g dom' val' where
  free a ha := hfg.free a ((hdom a).1 ha)
  mapped a ha := by
    rw [hval a ((hdom a).1 ha)]
    exact hfg.mapped a ((hdom a).1 ha)
  other a ha := hfg.other a fun ha' => ha ((hdom a).2 ha')

end Extends

namespace ExtendsAll

variable {f g h : α → Option β} {dom : ι → α → Prop} {val : ι → α → β} {i : ι} {is js : List ι}

theorem nil : ExtendsAll f f dom val [] :=
  ⟨nofun, nofun, fun _ _ => rfl, List.Pairwise.nil⟩

theorem single (hfg : Extends f g (dom i) (val i)) : ExtendsAll f g dom val [i] where
  free := List.forall_mem_singleton.2 hfg.free
  mapped := List.forall_mem_singleton.2 hfg.mapped
  other a ha := hfg.other a (ha i (List.mem_singleton.2 rfl))
  apart := List.pairwise_singleton _ _

/-- The pieces of one list after those of another. -/
theorem append (hfg : ExtendsAll f g dom val is) (hgh : ExtendsAll g h dom val js) :
    ExtendsAll f h dom val (is ++ js) := by
  have hapart : ∀ i ∈ is, ∀ j ∈ js, ∀ a, dom i a → ¬ dom j a := by
    intro i hi j hj a ha ha'
    have hfree := hgh.free j hj a ha'
    rw [hfg.mapped i hi a ha] at hfree
    cases hfree
  refine ⟨fun j hj a ha => ?_, fun j hj a ha => ?_, fun a ha => ?_,
    List.pairwise_append.2 ⟨hfg.apart, hgh.apart, hapart⟩⟩
  · rcases List.mem_append.1 hj with hj | hj
    · exact hfg.free j hj a ha
    · rw [← hfg.other a fun i hi ha' => hapart i hi j hj a ha' ha]
      exact hgh.free j hj a ha
  · rcases List.mem_append.1 hj with hj | hj
    · rw [hgh.other a fun i hi => hapart j hj i hi a ha]
      exact hfg.mapped j hj a ha
    · exact hgh.mapped j hj a ha
  · rw [hgh.other a fun j hj => ha j (List.mem_append_right _ hj)]
    exact hfg.other a fun j hj => ha j (List.mem_append_left _ hj)

end ExtendsAll

end Berk162
