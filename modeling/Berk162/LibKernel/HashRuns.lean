import Berk162.LibKernel.HashInv
import Berk162.Lib.Transition

/-!
# HashRuns — the hash table as a set

The calls of a program that uses a hash table, where `malloc` may fail in any of them, are steps of
a keyed set, with the same results.  The calls of `hash_next` return each element once.
-/

namespace Berk162

variable {α : Type} {F : HashFuncs α} {h h' : Hash α} {e : α} {S : KeyedSet F.setoid}

/-! ## Iteration -/

/-- The elements in the buckets after `bucket`. -/
def Hash.rest (h : Hash α) (bucket : Nat) : List α :=
  (List.range' (bucket + 1) (h.bucket_cnt - (bucket + 1))).flatMap h.buckets

theorem Hash.rest_of_lt {b : Nat} (hb : b + 1 < h.bucket_cnt) :
    h.rest b = h.buckets (b + 1) ++ h.rest (b + 1) := by
  have hlen : h.bucket_cnt - (b + 1) = h.bucket_cnt - (b + 1 + 1) + 1 := by omega
  rw [Hash.rest, hlen, List.range'_succ, List.flatMap_cons]
  rfl

theorem Hash.rest_of_le {b : Nat} (hb : h.bucket_cnt ≤ b + 1) : h.rest b = [] := by
  rw [Hash.rest, Nat.sub_eq_zero_of_le hb]
  rfl

/-- An iterator that has still `es` to return. -/
def Hash.Before (h : Hash α) (i : HashIterator α) (es : List α) : Prop :=
  match i.elem with
  | IterElem.head => es = h.buckets i.bucket ++ h.rest i.bucket
  | IterElem.elem e => ∃ pre l, h.buckets i.bucket = pre ++ e :: l ∧ es = l ++ h.rest i.bucket
  | IterElem.null => False

/-- An iterator that is at the first of `es`, with the others still to return. -/
def Hash.At (h : Hash α) (i : HashIterator α) : List α → Prop
  | [] => i.elem = IterElem.null
  | e :: es => i.elem = IterElem.elem e ∧ h.Before i es

/-- `l` is what follows in the bucket's list. -/
theorem Hash.next_bucket_spec (h : Hash α) (b : Nat) (pre l : List α) (hl : h.buckets b = pre ++ l) :
    h.At (h.next_bucket b l.head?) (l ++ h.rest b) := by
  cases l with
  | cons e l =>
      rw [List.cons_append, List.head?_cons, Hash.next_bucket]
      exact ⟨rfl, pre, l, hl, rfl⟩
  | nil =>
      rw [List.nil_append, List.head?_nil, Hash.next_bucket]
      by_cases hend : h.bucket_cnt ≤ b + 1
      · rw [if_pos hend, Hash.rest_of_le hend]
        exact rfl
      · rw [if_neg hend, Hash.rest_of_lt (Nat.lt_of_not_le hend)]
        exact Hash.next_bucket_spec h (b + 1) [] _ rfl
termination_by h.bucket_cnt - b

section
variable [DecidableEq α]

theorem Hash.hash_next_spec (hi : HashInv F h) {i : HashIterator α} {es : List α}
    (hbefore : h.Before i es) :
    ∃ i', h.hash_next i = some i' ∧ h.At i' es := by
  rcases i with ⟨b, elem⟩
  cases elem with
  | head =>
      obtain rfl : es = h.buckets b ++ h.rest b := hbefore
      exact ⟨_, rfl, h.next_bucket_spec b [] _ rfl⟩
  | elem e =>
      rcases hbefore with ⟨pre, l, hb, rfl⟩
      -- the element is found where it is, as it is in the list only once
      have hpre : ∀ x ∈ pre, (x != e) = true := by
        intro x hx
        have hnodup := hi.nodup b
        rw [hb] at hnodup
        rw [bne_iff_ne]
        rintro rfl
        exact List.disjoint_of_nodup_append hnodup hx List.mem_cons_self
      have hdrop : (h.buckets b).dropWhile (fun e' => e' != e) = e :: l := by
        rw [hb, List.dropWhile_append_of_pos hpre, List.dropWhile_cons_of_neg]
        rw [bne_self_eq_false]
        exact Bool.false_ne_true
      refine ⟨h.next_bucket b l.head?, ?_, h.next_bucket_spec b (pre ++ [e]) l ?_⟩
      · rw [Hash.hash_next]
        simp only [hdrop, List.tail_cons]
      · rw [hb, List.append_assoc, List.singleton_append]
  | null =>
      exact hbefore.elim

theorem Hash.iterate_of_before (hi : HashInv F h) (es : List α) {i : HashIterator α}
    (hbefore : h.Before i es) (passes : Nat) (hpasses : es.length < passes) :
    h.iterate passes i = some es := by
  induction es generalizing i passes with
  | nil =>
      rcases Nat.exists_eq_add_of_lt hpasses with ⟨n, rfl⟩
      rcases Hash.hash_next_spec hi hbefore with ⟨i', hnext, hnull⟩
      rw [Hash.iterate, hnext, Option.bind_eq_bind, Option.bind_some, hnull]
      rfl
  | cons e es ih =>
      rcases Nat.exists_eq_add_of_lt hpasses with ⟨n, rfl⟩
      rcases Hash.hash_next_spec hi hbefore with ⟨i', hnext, helem, hbefore'⟩
      rw [Hash.iterate, hnext, Option.bind_eq_bind, Option.bind_some, helem]
      have hrest := ih hbefore' ((e :: es).length + n) (by rw [List.length_cons]; omega)
      simp only [hrest]
      rfl

/-- From `hash_first` on, `hash_next` returns the elements of the table bucket by bucket. -/
theorem Hash.iterate_first (hi : HashInv F h) (passes : Nat) (hpasses : h.elements.length < passes) :
    h.iterate passes Hash.hash_first = some h.elements := by
  refine Hash.iterate_of_before hi _ ?_ passes hpasses
  have hfour := hi.four_le
  have hlen : h.bucket_cnt = h.bucket_cnt - (0 + 1) + 1 := by omega
  show h.elements = h.buckets 0 ++ h.rest 0
  rw [Hash.elements, List.range_eq_range', hlen, List.range'_succ, List.flatMap_cons]
  rfl

end

/-! ## Calls -/

/-- A call on a hash table; `hash_clear` with a destructor or without. -/
inductive HashCall (α : Type)
  | insert (new : α)
  | replace (new : α)
  | find (e : α)
  | delete (e : α)
  | clear (destructor : Bool)

/-- What a call returns; for `hash_clear`, the elements that the destructor is called for. -/
inductive HashResult (α : Type)
  | found (e : Option α)
  | destroyed (es : List α)
  deriving DecidableEq

/-- `ok` tells whether `malloc` finds memory in `rehash`. -/
def Hash.call [DecidableEq α] (h : Hash α) (ok : Bool) : HashCall α → Option (HashResult α × Hash α)
  | HashCall.insert new => (h.hash_insert new ok).map (Prod.map HashResult.found id)
  | HashCall.replace new => (h.hash_replace new ok).map (Prod.map HashResult.found id)
  | HashCall.find e => some (HashResult.found (h.hash_find e), h)
  | HashCall.delete e => (h.hash_delete e ok).map (Prod.map HashResult.found id)
  | HashCall.clear destructor =>
      some (Prod.map HashResult.destroyed id (h.hash_clear destructor))

/-- What the call does with a set. -/
inductive KeyedSet.Step {r : Setoid α} (S : KeyedSet r) :
    HashCall α → HashResult α → KeyedSet r → Prop
  | insert (new : α) : Step S (HashCall.insert new) (HashResult.found (S.find new)) (S.insert new)
  | replace (new : α) : Step S (HashCall.replace new) (HashResult.found (S.find new)) (S.replace new)
  | find (e : α) : Step S (HashCall.find e) (HashResult.found (S.find e)) S
  | delete (e : α) : Step S (HashCall.delete e) (HashResult.found (S.find e)) (S.delete e)
  | clear : Step S (HashCall.clear false) (HashResult.destroyed []) (KeyedSet.empty r)
  | destroy (es : List α) : es.Nodup → (∀ e, e ∈ es ↔ e ∈ S.elems) →
      Step S (HashCall.clear true) (HashResult.destroyed es) (KeyedSet.empty r)

namespace TableOf

theorem hash_clear (ht : TableOf F h S) (destructor : Bool) :
    TableOf F (h.hash_clear destructor).2 (KeyedSet.empty F.setoid) := by
  refine ⟨⟨ht.inv.hash_eq, ht.inv.less_eq, ht.inv.pow, ht.inv.lt, nofun, fun _ => List.nodup_nil⟩,
    fun e => ?_, rfl⟩
  exact ⟨fun he => absurd he List.not_mem_nil, fun he => absurd he KeyedSet.mem_empty⟩

variable [HashElem α]

theorem hash_insert (ht : TableOf F h S) (new : α) (ok : Bool) :
    ∃ h', h.hash_insert new ok = some (S.find new, h') ∧ TableOf F h' (S.insert new) := by
  rw [Hash.hash_insert, ht.find_elem]
  cases hfind : S.find new with
  | none =>
      rcases (ht.insert_elem hfind).rehash ok with ⟨h', hrehash, ht'⟩
      refine ⟨h', ?_, ?_⟩
      · simp only [Option.isNone_none, if_true, hrehash, Option.bind_eq_bind, Option.bind_some]
        rfl
      · rwa [KeyedSet.insert, if_pos hfind]
  | some a =>
      rcases ht.rehash ok with ⟨h', hrehash, ht'⟩
      refine ⟨h', ?_, ?_⟩
      · simp only [Option.isNone_some, Bool.false_eq_true, if_false, hrehash, Option.bind_eq_bind,
          Option.bind_some]
        rfl
      · rwa [KeyedSet.insert, if_neg (by rw [hfind]; exact Option.some_ne_none a)]

variable [DecidableEq α]

theorem hash_replace (ht : TableOf F h S) (new : α) (ok : Bool) :
    ∃ h', h.hash_replace new ok = some (S.find new, h') ∧ TableOf F h' (S.replace new) := by
  rw [Hash.hash_replace, ht.find_elem]
  cases hfind : S.find new with
  | none =>
      rcases (ht.insert_elem hfind).rehash ok with ⟨h', hrehash, ht'⟩
      refine ⟨h', ?_, ht'⟩
      simp only [hrehash, Option.bind_eq_bind, Option.bind_some]
      rfl
  | some a =>
      -- the bucket is that of the table without the old element
      have ht' := ht.remove_elem hfind
      have hbucket : (h.remove_elem a).find_bucket new = h.find_bucket new := by
        rw [Hash.find_bucket, Hash.find_bucket, Hash.remove_elem]
      have hnone : (S.delete new).find new = none := by
        rw [KeyedSet.find_eq_none_iff]
        exact fun b hb => (KeyedSet.mem_delete.1 hb).2
      have hreplace : (S.delete new).replace new = S.replace new := by
        refine KeyedSet.ext (Finset.ext fun b => ?_)
        rw [KeyedSet.mem_replace, KeyedSet.mem_replace, KeyedSet.mem_delete, and_assoc, and_self]
      rcases (ht'.insert_elem hnone).rehash ok with ⟨h', hrehash, ht''⟩
      rw [hbucket] at hrehash
      rw [hreplace] at ht''
      refine ⟨h', ?_, ht''⟩
      simp only [hrehash, Option.bind_eq_bind, Option.bind_some]
      rfl

theorem hash_delete (ht : TableOf F h S) (e : α) (ok : Bool) :
    ∃ h', h.hash_delete e ok = some (S.find e, h') ∧ TableOf F h' (S.delete e) := by
  rw [Hash.hash_delete, ht.find_elem]
  cases hfind : S.find e with
  | none =>
      refine ⟨h, rfl, ?_⟩
      rwa [KeyedSet.delete_of_find_none hfind]
  | some a =>
      rcases (ht.remove_elem hfind).rehash ok with ⟨h', hrehash, ht'⟩
      refine ⟨h', ?_, ht'⟩
      simp only [hrehash, Option.bind_eq_bind, Option.bind_some]
      rfl

/-- Every call returns, and does what it does with the set. -/
theorem call (ht : TableOf F h S) (ok : Bool) (c : HashCall α) :
    ∃ r h' S', h.call ok c = some (r, h') ∧ S.Step c r S' ∧ TableOf F h' S' := by
  cases c with
  | insert new =>
      rcases ht.hash_insert new ok with ⟨h', hcall, ht'⟩
      refine ⟨_, h', _, ?_, KeyedSet.Step.insert new, ht'⟩
      rw [Hash.call, hcall]
      rfl
  | replace new =>
      rcases ht.hash_replace new ok with ⟨h', hcall, ht'⟩
      refine ⟨_, h', _, ?_, KeyedSet.Step.replace new, ht'⟩
      rw [Hash.call, hcall]
      rfl
  | find e =>
      refine ⟨_, h, _, ?_, KeyedSet.Step.find e, ht⟩
      rw [Hash.call, Hash.hash_find, ht.find_elem]
  | delete e =>
      rcases ht.hash_delete e ok with ⟨h', hcall, ht'⟩
      refine ⟨_, h', _, ?_, KeyedSet.Step.delete e, ht'⟩
      rw [Hash.call, hcall]
      rfl
  | clear destructor =>
      have ht' := ht.hash_clear destructor
      cases destructor with
      | false =>
          exact ⟨_, _, _, rfl, KeyedSet.Step.clear, ht'⟩
      | true =>
          refine ⟨_, _, _, rfl, KeyedSet.Step.destroy h.elements ht.inv.nodup_elements fun e => ?_, ht'⟩
          rw [ht.inv.mem_elements, ht.holds]

end TableOf

theorem hash_init_spec (F : HashFuncs α) (buckets : Nat → List α) :
    ∃ h, Hash.hash_init F.hash F.less true buckets = some h ∧ TableOf F h (KeyedSet.empty F.setoid) := by
  have hi : HashInv F (Hash.hash_clear ⟨0, 4, buckets, F.hash, F.less⟩ false).2 :=
    ⟨rfl, rfl, ⟨2, le_refl _, rfl⟩, show 4 < WORD by decide, nofun, fun _ => List.nodup_nil⟩
  refine ⟨_, rfl, hi, fun e => ?_, rfl⟩
  exact ⟨fun he => absurd he List.not_mem_nil, fun he => absurd he KeyedSet.mem_empty⟩

/-! ## Runs -/

section
variable [DecidableEq α]

/-- The hash table: `hash_init` with any contents of the memory that it gets for the buckets, and
then calls in which `malloc` may fail. -/
def hashTable (F : HashFuncs α) : System (Hash α) (HashCall α × HashResult α) where
  init h := ∃ buckets, Hash.hash_init F.hash F.less true buckets = some h
  step h l h' := ∃ ok, h.call ok l.1 = some (l.2, h')

/-- The set. -/
def keyedSets (F : HashFuncs α) : System (KeyedSet F.setoid) (HashCall α × HashResult α) where
  init S := S = KeyedSet.empty F.setoid
  step S l S' := S.Step l.1 l.2 S'

theorem hashTable_simulates [HashElem α] (F : HashFuncs α) :
    System.Simulates (hashTable F) (keyedSets F) (TableOf F) := by
  constructor
  case init =>
    rintro h ⟨buckets, hinit⟩
    rcases hash_init_spec F buckets with ⟨h', hinit', ht⟩
    obtain rfl : h' = h := Option.some.inj (hinit'.symm.trans hinit)
    exact ⟨_, rfl, ht⟩
  case step =>
    rintro h ⟨c, r⟩ h' S ht ⟨ok, hcall⟩
    rcases ht.call ok c with ⟨r', h'', S', hcall', hstep, ht'⟩
    obtain ⟨rfl, rfl⟩ := Prod.mk.inj (Option.some.inj (hcall'.symm.trans hcall))
    exact ⟨S', hstep, ht'⟩

/-- After any run every call returns, and the table is that of the set that the same run of the set
leads to. -/
theorem hashTable_refines_set [HashElem α] (F : HashFuncs α) {h₀ h : Hash α}
    {ls : List (HashCall α × HashResult α)} (hinit : (hashTable F).init h₀)
    (hrun : (hashTable F).Exec h₀ ls h) :
    (∀ c ok, ∃ r h', h.call ok c = some (r, h')) ∧
    ∃ S, (keyedSets F).Exec (KeyedSet.empty F.setoid) ls S ∧
      h.elem_cnt = S.elems.card ∧
      (∀ i e, e ∈ h.buckets i ↔ e ∈ S.elems ∧ i = (F.hash e).toNat &&& (h.bucket_cnt - 1)) ∧
      4 ≤ h.bucket_cnt ∧ (∃ k, h.bucket_cnt = 2 ^ k) ∧
      ∃ es : List α, es.Nodup ∧ (∀ e, e ∈ es ↔ e ∈ S.elems) ∧
        ∀ passes, es.length < passes → h.iterate passes Hash.hash_first = some es := by
  rcases (hashTable_simulates F).init h₀ hinit with ⟨S₀, rfl, ht₀⟩
  rcases (hashTable_simulates F).exec hrun ht₀ with ⟨S, hS, ht⟩
  have hfour := ht.inv.four_le
  have hbucket : ∀ e, h.find_bucket e = (F.hash e).toNat &&& (h.bucket_cnt - 1) := by
    intro e
    have hsub : size_sub h.bucket_cnt 1 = h.bucket_cnt - 1 := size_sub_eq (by omega) ht.inv.lt
    rw [Hash.find_bucket, ht.inv.hash_eq, hsub]
  refine ⟨fun c ok => ?_, S, hS, ht.elem_cnt, fun i e => ?_, hfour, ?_, h.elements,
    ht.inv.nodup_elements, fun e => ?_, Hash.iterate_first ht.inv⟩
  · rcases ht.call ok c with ⟨r, h', _, hcall, _⟩
    exact ⟨r, h', hcall⟩
  · rw [ht.inv.mem_iff, ht.holds, hbucket, and_comm]
  · exact ht.inv.pow.imp fun _ hk => hk.2
  · rw [ht.inv.mem_elements, ht.holds]

end

/-! ## An example -/

/-- Elements with a key of five bits and a bit that is not part of the key. -/
instance : HashElem (Fin 64) where
  addr e := 16 * e.val
  fits e := by
    have hlt := e.isLt
    rw [WORD_eq]
    omega
  apart e e' hne := by
    have hval : e.val ≠ e'.val := fun h => hne (Fin.ext h)
    omega

def pairFuncs : HashFuncs (Fin 64) where
  hash e := BitVec.ofNat 32 (e.val / 2)
  less e e' := decide (e.val / 2 < e'.val / 2)
  irrefl e := decide_eq_false (Nat.lt_irrefl _)
  trans a b c := by
    simp only [decide_eq_false_iff_not]
    omega
  hash_eq a b := by
    simp only [decide_eq_false_iff_not]
    intro hab hba
    rw [Nat.le_antisymm (Nat.le_of_not_lt hba) (Nat.le_of_not_lt hab)]

def noPairs : Hash (Fin 64) :=
  (Hash.hash_clear ⟨0, 4, fun _ => [], pairFuncs.hash, pairFuncs.less⟩ false).2

/-- The calls one after another, with what they return; `malloc` finds memory. -/
def Hash.calls [DecidableEq α] : List (HashCall α) → Hash α → Option (List (HashResult α) × Hash α)
  | [], h => some ([], h)
  | c :: cs, h => do
      let (r, h) ← h.call true c
      let (rs, h) ← Hash.calls cs h
      return (r :: rs, h)

theorem Hash.calls_exec [DecidableEq α] (cs : List (HashCall α)) : ∀ {h h' : Hash α}
    {rs : List (HashResult α)}, Hash.calls cs h = some (rs, h') →
      (hashTable F).Exec h (cs.zip rs) h' := by
  induction cs with
  | nil =>
      intro h h' rs hcalls
      cases hcalls
      exact System.Exec.nil h
  | cons c cs ih =>
      intro h h' rs hcalls
      rcases Option.bind_eq_some_iff.1 hcalls with ⟨⟨r, h₁⟩, hcall, hrest⟩
      rcases Option.bind_eq_some_iff.1 hrest with ⟨⟨rs, h₂⟩, hcalls, hlast⟩
      cases hlast
      have hfirst : (hashTable F).Exec h [(c, r)] h₁ :=
        System.Exec.snoc (System.Exec.nil h) ⟨true, hcall⟩
      exact hfirst.append (ih hcalls)

/-- Sixteen elements with keys of their own, the last of which makes the table grow; then one with
the key of 30, and one that replaces 6. -/
def pairs_calls : List (HashCall (Fin 64)) :=
  (List.range 16).map (fun n => HashCall.insert (Fin.ofNat 64 (2 * n))) ++
    [HashCall.insert 31, HashCall.replace 7]

/-- What is asked of the run below. -/
def pairs_results (r : List (HashResult (Fin 64)) × Hash (Fin 64)) : Prop :=
  r.1.drop 16 = [HashResult.found (some 30), HashResult.found (some 6)] ∧ r.2.bucket_cnt = 8 ∧
    r.2.elem_cnt = 16 ∧ 7 ∈ r.2.buckets (r.2.find_bucket 7)

instance (r : List (HashResult (Fin 64)) × Hash (Fin 64)) : Decidable (pairs_results r) :=
  inferInstanceAs (Decidable (_ ∧ _))

theorem hashTable_refines_set_pairs : ∃ rs h S, (hashTable pairFuncs).Exec noPairs
      (pairs_calls.zip rs) h ∧ pairs_results (rs, h) ∧
    (keyedSets pairFuncs).Exec (KeyedSet.empty _) (pairs_calls.zip rs) S ∧
    S.elems.card = 16 ∧ 7 ∈ S.elems ∧
    ∃ es : List (Fin 64), es.Nodup ∧ es.length = 16 ∧ h.iterate 17 Hash.hash_first = some es := by
  have hrun : ((Hash.calls pairs_calls noPairs).map fun r => decide (pairs_results r)) =
      some true := by
    decide +kernel
  rcases Option.map_eq_some_iff.1 hrun with ⟨⟨rs, h⟩, hcalls, hresults⟩
  have hexec : (hashTable pairFuncs).Exec noPairs (pairs_calls.zip rs) h :=
    Hash.calls_exec pairs_calls hcalls
  have hgot : pairs_results (rs, h) := of_decide_eq_true hresults
  rcases (hashTable_refines_set pairFuncs ⟨_, rfl⟩ hexec).2 with
    ⟨S, hS, hcnt, hmem, _, _, es, hnodup, hes, hiter⟩
  have hcard : S.elems.card = 16 := hcnt.symm.trans hgot.2.2.1
  have hlen : es.length = 16 := by
    have heq : es.toFinset = S.elems := Finset.ext fun e => by rw [List.mem_toFinset, hes]
    rw [← List.toFinset_card_of_nodup hnodup, heq, hcard]
  refine ⟨rs, h, S, hexec, hgot, hS, hcard, ((hmem _ 7).1 hgot.2.2.2).1, es, hnodup, hlen, ?_⟩
  exact hiter 17 (by rw [hlen]; decide)

end Berk162
