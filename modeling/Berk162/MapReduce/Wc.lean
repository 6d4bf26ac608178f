import Berk162.MapReduce.VertexDegree
import Mathlib.Data.List.GetD

/-!
# Wc — the application `wc`, `hw-map-reduce/app/wc`

`num_words` counts the words of a buffer and `wc_map` goes through it a second time to make a pair
of each.  In the C locale the letters are those of ASCII.
-/

namespace Berk162.MapReduce

def isalpha (c : UInt8) : Bool := (65 ≤ c && c ≤ 90) || (97 ≤ c && c ≤ 122)

def tolower (c : UInt8) : UInt8 := if 65 ≤ c && c ≤ 90 then c + 32 else c

/-- A run of letters has ended: `num_words` and `counter` before, `num_words` after. -/
def end_of_run (num_words counter : Int) : Int :=
  if counter > 1 then int32 (num_words + 1) else num_words

/-- A pass of the loop of `num_words`: `num_words` and `counter`. -/
def num_words_step (s : Int × Int) (c : UInt8) : Int × Int :=
  if isalpha c then (s.1, int32 (s.2 + 1)) else (end_of_run s.1 s.2, 0)

def num_words (buf : SizedBuffer) : Int :=
  let (num_words, counter) := buf.bytes.foldl num_words_step (0, 0)
  end_of_run num_words counter

/-- The pair for the letters from `p1` to `p2`. -/
def word_pair (buf : SizedBuffer) (p1 p2 : Nat) : KeyValue where
  key := ⟨((buf.bytes.drop p1).take (p2 - p1)).map tolower, by
    rw [List.length_map]
    exact lt_of_le_of_lt (List.length_take_le' _ _)
      (lt_of_le_of_lt (List.length_drop .. ▸ Nat.sub_le _ _) buf.length_lt)⟩
  value := int_buffer 1

/-- `kva[counter] = kv`. -/
def store_pair (kva : List (Option KeyValue)) (counter : Nat) (kv : KeyValue) :
    Option (List (Option KeyValue)) := do
  ASSERT (counter < kva.length)
  return kva.set counter (some kv)

/-- The loop of `wc_map`; a pair of `kva` that has not been stored yet is `none`. -/
def wc_map_loop (buf : SizedBuffer) :
    Nat → List (Option KeyValue) → Nat → Nat → Nat → Option (List (Option KeyValue))
  | 0, _, _, _, _ => none
  | fuel + 1, kva, counter, p1, p2 =>
      if p1 < buf.bytes.length then
        if p2 ≥ buf.bytes.length ∨ ¬ isalpha (buf.bytes.getD p2 0) then
          if p2 > p1 + 1 then do
            let kva ← store_pair kva counter (word_pair buf p1 p2)
            wc_map_loop buf fuel kva (counter + 1) (p2 + 1) (p2 + 1)
          else wc_map_loop buf fuel kva counter (p2 + 1) (p2 + 1)
        else wc_map_loop buf fuel kva counter p1 (p2 + 1)
      else some kva

/-- The length and the pairs of the array that `wc_map` returns. -/
def wc_map (fuel : Nat) (input : KeyValue) (_aux : SizedBuffer) :
    Option (Int × List (Option KeyValue)) := do
  let n := num_words input.value
  let kva ← wc_map_loop input.value fuel (List.replicate n.toNat none) 0 0 0
  return (n, kva)

/-! ## Words -/

/-- The maximal runs of letters that have at least two of them. -/
def words (bytes : Bytes) : List Bytes :=
  (bytes.splitOnP fun c => !isalpha c).filter fun w => 2 ≤ w.length

/-- The words of `bytes`, the letters `acc` in front of it in reverse. -/
noncomputable def words_from (bytes acc : Bytes) : List Bytes :=
  (bytes.splitOnPPrepend (fun c => !isalpha c) acc).filter fun w => 2 ≤ w.length

variable {bytes acc : Bytes} {c : UInt8}

theorem words_from_nil : words_from bytes [] = words bytes := rfl

theorem words_from_letter (hc : isalpha c = true) :
    words_from (c :: bytes) acc = words_from bytes (c :: acc) := by
  rw [words_from, List.splitOnPPrepend_cons_neg (by simp [hc])]
  rfl

/-- The word that the letters `acc` are, if they are one. -/
def word_of (acc : Bytes) : List Bytes := if 2 ≤ acc.length then [acc.reverse] else []

theorem words_from_other (hc : isalpha c = false) :
    words_from (c :: bytes) acc = word_of acc ++ words bytes := by
  rw [words_from, List.splitOnPPrepend_cons_pos (by simp [hc]), word_of]
  by_cases h : 2 ≤ acc.length
  · rw [if_pos h, List.filter_cons_of_pos (by simpa using h)]
    rfl
  · rw [if_neg h, List.filter_cons_of_neg (by simpa using h)]
    rfl

theorem words_from_end : words_from [] acc = word_of acc := by
  rw [words_from, List.splitOnPPrepend_nil, word_of]
  by_cases h : 2 ≤ acc.length
  · rw [if_pos h, List.filter_cons_of_pos (by simpa using h), List.filter_nil]
  · rw [if_neg h, List.filter_cons_of_neg (by simpa using h), List.filter_nil]

/-! ## The first scan -/

theorem end_of_run_eq {n : Int} (hn : 0 ≤ n) (hlt : n + acc.length < 2 ^ 31) :
    end_of_run n acc.length = n + (word_of acc).length := by
  rw [end_of_run, word_of]
  by_cases h : 2 ≤ acc.length
  · rw [if_pos h, if_pos (by omega), int32_eq (by omega) (by omega)]
    rfl
  · rw [if_neg h, if_neg (by omega)]
    exact (Int.add_zero n).symm

/-- The invariant of the loop of `num_words`: what it has counted and the words that are still to
come are all words. -/
theorem num_words_loop {n : Int} (hn : 0 ≤ n) (hlen : n + acc.length + bytes.length < 2 ^ 31) :
    end_of_run (bytes.foldl num_words_step (n, (acc.length : Int))).1
        (bytes.foldl num_words_step (n, (acc.length : Int))).2 =
      n + (words_from bytes acc).length := by
  induction bytes generalizing n acc with
  | nil =>
      rw [List.length_nil] at hlen
      have hlt : n + acc.length < 2 ^ 31 := by omega
      rw [words_from_end]
      exact end_of_run_eq hn hlt
  | cons c bytes ih =>
      rw [List.length_cons] at hlen
      rw [List.foldl_cons, num_words_step]
      cases hc : isalpha c with
      | true =>
          have hcounter : int32 ((acc.length : Int) + 1) = ((c :: acc).length : Int) := by
            rw [int32_eq (by omega) (by omega), List.length_cons]
            rfl
          rw [if_pos rfl, hcounter, words_from_letter hc]
          exact ih hn (by rw [List.length_cons]; omega)
      | false =>
          have hword : (word_of acc).length ≤ acc.length := by
            rw [word_of]
            split
            · rw [List.length_singleton]
              omega
            · exact Nat.zero_le _
          have hnext := @ih [] (n + (word_of acc).length) (by omega)
            (by rw [List.length_nil]; omega)
          rw [if_neg Bool.false_ne_true, end_of_run_eq hn (by omega), words_from_other hc,
            List.length_append, Nat.cast_add, ← Int.add_assoc]
          exact hnext

theorem num_words_eq {buf : SizedBuffer} (h : buf.bytes.length < 2 ^ 31) :
    num_words buf = (words buf.bytes).length := by
  have hloop := @num_words_loop buf.bytes [] 0 (le_refl 0) (by simpa using h)
  rwa [words_from_nil, Int.zero_add] at hloop

/-! ## The second scan -/

/-- What a pair of a word is. -/
def Emitted (kv : KeyValue) (w : Bytes) : Prop :=
  kv.key.bytes = w.map tolower ∧ kv.value = int_buffer 1

/-- The array once the pairs `done` have been stored and `left` are still to come. -/
def stored_pairs (done : List KeyValue) (left : Nat) : List (Option KeyValue) :=
  done.map some ++ List.replicate left none

theorem store_pair_eq (done : List KeyValue) (left : Nat) (kv : KeyValue) :
    store_pair (stored_pairs done (left + 1)) done.length kv =
      some (stored_pairs (done ++ [kv]) left) := by
  have hlt : done.length < (stored_pairs done (left + 1)).length := by
    simp [stored_pairs]
  rw [store_pair, ASSERT_pos hlt]
  simp [stored_pairs, List.replicate_succ]

/-- The letters from `p1` to `p2`, in reverse. -/
def run_so_far (buf : SizedBuffer) (p1 p2 : Nat) : Bytes :=
  ((buf.bytes.drop p1).take (p2 - p1)).reverse

variable {buf : SizedBuffer} {p1 p2 : Nat}

theorem length_run_so_far (h : p2 ≤ buf.bytes.length) :
    (run_so_far buf p1 p2).length = p2 - p1 := by
  rw [run_so_far, List.length_reverse, List.length_take, List.length_drop]
  omega

theorem run_so_far_self : run_so_far buf p1 p1 = [] := by
  rw [run_so_far, Nat.sub_self, List.take_zero, List.reverse_nil]

theorem run_so_far_succ (hle : p1 ≤ p2) (h : p2 < buf.bytes.length) :
    run_so_far buf p1 (p2 + 1) = buf.bytes[p2] :: run_so_far buf p1 p2 := by
  have hlt : p2 - p1 < (buf.bytes.drop p1).length := by
    rw [List.length_drop]
    omega
  rw [run_so_far, Nat.succ_sub hle, List.take_succ_eq_append_getElem hlt, List.reverse_append,
    List.getElem_drop, run_so_far]
  simp [Nat.add_sub_cancel' hle]

/-- The pairs that are stored at the end of the run from `p1` to `p2`. -/
def run_pairs (buf : SizedBuffer) (p1 p2 : Nat) : List KeyValue :=
  if p2 > p1 + 1 then [word_pair buf p1 p2] else []

theorem emitted_run_pairs (h : p2 ≤ buf.bytes.length) :
    List.Forall₂ Emitted (run_pairs buf p1 p2) (word_of (run_so_far buf p1 p2)) := by
  have hkey : (word_pair buf p1 p2).key.bytes = (run_so_far buf p1 p2).reverse.map tolower := by
    rw [run_so_far, List.reverse_reverse]
    rfl
  rw [run_pairs, word_of, length_run_so_far h]
  by_cases hword : p2 > p1 + 1
  · rw [if_pos hword, if_pos (by omega)]
    exact .cons ⟨hkey, rfl⟩ .nil
  · rw [if_neg hword, if_neg (by omega)]
    exact .nil

theorem wc_map_loop_end_of_run {fuel : Nat} (h1 : p1 < buf.bytes.length)
    (h2 : p2 ≥ buf.bytes.length ∨ ¬ isalpha (buf.bytes.getD p2 0)) (done : List KeyValue)
    (left : Nat) :
    wc_map_loop buf (fuel + 1) (stored_pairs done ((run_pairs buf p1 p2).length + left)) done.length
        p1 p2 =
      wc_map_loop buf fuel (stored_pairs (done ++ run_pairs buf p1 p2) left)
        (done ++ run_pairs buf p1 p2).length (p2 + 1) (p2 + 1) := by
  rw [wc_map_loop, if_pos h1, if_pos h2, run_pairs]
  by_cases hword : p2 > p1 + 1
  · rw [if_pos hword, if_pos hword, List.length_singleton, Nat.add_comm 1 left, store_pair_eq,
      List.length_append]
    rfl
  · rw [if_neg hword, if_neg hword, List.length_nil, Nat.zero_add, List.append_nil]

/-- The invariant of the loop of `wc_map`: the words that are still to come fill the array. -/
theorem wc_map_loop_eq {fuel : Nat} (hle : p1 ≤ p2) (h : p2 ≤ buf.bytes.length)
    (hf : buf.bytes.length - p2 + 1 < fuel) :
    ∃ kvs : List KeyValue,
      List.Forall₂ Emitted kvs (words_from (buf.bytes.drop p2) (run_so_far buf p1 p2)) ∧
        ∀ done : List KeyValue,
          wc_map_loop buf fuel (stored_pairs done kvs.length) done.length p1 p2 =
            some ((done ++ kvs).map some) := by
  induction fuel generalizing p1 p2 with
  | zero => omega
  | succ fuel ih =>
      rcases Nat.eq_or_lt_of_le h with rfl | hlt
      · -- the buffer has ended, and a run may have ended with it
        rw [List.drop_length, words_from_end]
        by_cases h1 : p1 < buf.bytes.length
        · refine ⟨run_pairs buf p1 buf.bytes.length, emitted_run_pairs (Nat.le_refl _),
            fun done => ?_⟩
          refine (wc_map_loop_end_of_run h1 (Or.inl (Nat.le_refl _)) done 0).trans ?_
          obtain ⟨fuel, rfl⟩ := Nat.exists_eq_succ_of_ne_zero (show fuel ≠ 0 by omega)
          rw [wc_map_loop, if_neg (by omega)]
          simp [stored_pairs]
        · obtain rfl : p1 = buf.bytes.length := by omega
          refine ⟨[], ?_, fun done => ?_⟩
          · rw [run_so_far_self]
            exact .nil
          · rw [wc_map_loop, if_neg h1]
            simp [stored_pairs]
      · have hdrop := List.drop_eq_getElem_cons hlt
        have hget : buf.bytes.getD p2 0 = buf.bytes[p2] := List.getD_eq_getElem _ _ hlt
        cases hc : isalpha buf.bytes[p2] with
        | true =>
            obtain ⟨kvs, hkvs, hloop⟩ := ih (Nat.le_succ_of_le hle) hlt (by omega)
            refine ⟨kvs, ?_, fun done => ?_⟩
            · rw [hdrop, words_from_letter hc, ← run_so_far_succ hle hlt]
              exact hkvs
            · rw [wc_map_loop, if_pos (by omega), if_neg (by rw [hget, hc]; simp; omega)]
              exact hloop done
        | false =>
            obtain ⟨kvs, hkvs, hloop⟩ := ih (Nat.le_refl (p2 + 1)) hlt (by omega)
            rw [run_so_far_self, words_from_nil] at hkvs
            refine ⟨run_pairs buf p1 p2 ++ kvs, ?_, fun done => ?_⟩
            · rw [hdrop, words_from_other hc]
              exact List.rel_append (emitted_run_pairs h) hkvs
            · have hstop : p2 ≥ buf.bytes.length ∨ ¬ isalpha (buf.bytes.getD p2 0) :=
                Or.inr (by rw [hget, hc]; exact Bool.false_ne_true)
              rw [List.length_append, wc_map_loop_end_of_run (by omega) hstop, hloop,
                List.append_assoc]

theorem wc_map_words {input : KeyValue} (h : input.value.bytes.length < 2 ^ 31) (aux : SizedBuffer)
    {fuel : Nat} (hf : input.value.bytes.length + 1 < fuel) :
    num_words input.value = (words input.value.bytes).length ∧
      ∃ kvs : List KeyValue, List.Forall₂ Emitted kvs (words input.value.bytes) ∧
        wc_map fuel input aux = some (num_words input.value, kvs.map some) := by
  have hnum := num_words_eq h
  obtain ⟨kvs, hkvs, hloop⟩ := wc_map_loop_eq (Nat.le_refl 0) (Nat.zero_le _) hf
  rw [run_so_far_self, words_from_nil, List.drop_zero] at hkvs
  refine ⟨hnum, kvs, hkvs, ?_⟩
  have hstart := hloop []
  rw [hkvs.length_eq] at hstart
  rw [wc_map, hnum, Int.toNat_natCast]
  have hslots : stored_pairs [] (words input.value.bytes).length =
      List.replicate (words input.value.bytes).length none := List.nil_append _
  rw [hslots, List.length_nil, List.nil_append] at hstart
  rw [hstart]
  rfl

/-- `He, is a?` has two words: one letter is none. -/
theorem wc_map_words_text :
    num_words ⟨[72, 101, 44, 32, 105, 115, 32, 97, 63], by decide⟩ =
        (words [72, 101, 44, 32, 105, 115, 32, 97, 63]).length ∧
      ∃ kvs : List KeyValue,
        List.Forall₂ Emitted kvs (words [72, 101, 44, 32, 105, 115, 32, 97, 63]) ∧
        wc_map 11 ⟨⟨[], by decide⟩, ⟨[72, 101, 44, 32, 105, 115, 32, 97, 63], by decide⟩⟩
            ⟨[], by decide⟩ =
          some (num_words ⟨[72, 101, 44, 32, 105, 115, 32, 97, 63], by decide⟩, kvs.map some) :=
  @wc_map_words ⟨⟨[], by decide⟩, ⟨[72, 101, 44, 32, 105, 115, 32, 97, 63], by decide⟩⟩
    (by decide) ⟨[], by decide⟩ 11 (by decide)

end Berk162.MapReduce
