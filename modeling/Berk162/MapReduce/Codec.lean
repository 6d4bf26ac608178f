import Berk162.Lib.Framing
import Berk162.MapReduce.TaskHandler

/-!
# Codec — what the readers make of an intermediate file

The files are streams of packets whose length is written in 8 bytes: `ldr_next` is the reader of
`Header.next`, so a file is its complete entries followed by a rest that the readers stop at.
-/

namespace Berk162.MapReduce

/-- The format of the intermediate files and of the output files. -/
def ldw : Header := Header.le 8 SSIZE_LIMIT (by decide) (by decide)

theorem ldw_write_eq (outfile : Bytes) (buf : SizedBuffer) :
    ldw_write outfile buf = outfile ++ ldw.frame buf.bytes := rfl

theorem ldw_next_eq (infile : Bytes) :
    ldw.next infile =
      if infile.length < 8 ∨ SSIZE_LIMIT ≤ le_val (infile.take 8) ∨
          (infile.drop 8).length < le_val (infile.take 8) then none
      else some ((infile.drop 8).take (le_val (infile.take 8)),
        (infile.drop 8).drop (le_val (infile.take 8))) := rfl

theorem ldr_next_of_some {infile p rest : Bytes} (h : ldw.next infile = some (p, rest)) :
    ∃ hp : p.length < SSIZE_LIMIT, ldr_next infile = (some ⟨p, hp⟩, rest) := by
  refine ⟨(Header.next_eq_some_iff.1 h).1, ?_⟩
  rw [ldw_next_eq] at h
  split_ifs at h with hshort
  rw [not_or, not_or] at hshort
  rcases hshort with ⟨hwidth, hlimit, hbody⟩
  cases h
  simp only [ldr_next]
  rw [if_neg hwidth, dif_neg hlimit, if_neg hbody]

theorem ldr_next_of_none {infile : Bytes} (h : ldw.next infile = none) :
    (ldr_next infile).1 = none := by
  rw [ldw_next_eq] at h
  split_ifs at h with hshort
  simp only [ldr_next]
  by_cases hwidth : infile.length < 8
  · rw [if_pos hwidth]
  · rw [if_neg hwidth]
    by_cases hlimit : SSIZE_LIMIT ≤ le_val (infile.take 8)
    · rw [dif_pos hlimit]
    · have hbody : (infile.drop 8).length < le_val (infile.take 8) :=
        (hshort.resolve_left hwidth).resolve_left hlimit
      rw [dif_neg hlimit, if_pos hbody]

/-- `ldr_count` counts the complete entries at the start of the file. -/
theorem ldr_count_eq (infile : Bytes) : ldr_count infile = (ldw.decode infile).1.length := by
  induction hlen : infile.length using Nat.strongRecOn generalizing infile with
  | _ n ih =>
      cases hnext : ldw.next infile with
      | none =>
          have hnone := ldr_next_of_none hnext
          rw [Header.decode_of_none hnext, ldr_count]
          split
          · rfl
          · rename_i hsome
            rw [hsome] at hnone
            cases hnone
      | some pr =>
          rcases pr with ⟨p, rest⟩
          rcases ldr_next_of_some hnext with ⟨hp, hsome⟩
          rw [Header.decode_of_some hnext, ldr_count]
          split
          · rename_i hnone
            rw [hnone] at hsome
            cases hsome
          · rename_i hsome'
            rw [hsome] at hsome'
            cases hsome'
            rw [ih rest.length (hlen ▸ Header.length_lt_of_next hnext) rest rfl, List.length_cons]

/-! ## Files of pairs -/

/-- The entries of the pairs `kvs`. -/
def entries (kvs : List KeyValue) : List Bytes :=
  kvs.flatMap fun kv => [kv.key.bytes, kv.value.bytes]

/-- The file that holds the pairs `kvs`. -/
def file_of (kvs : List KeyValue) : Bytes := ldw.encode (entries kvs)

@[simp] theorem entries_nil : entries [] = [] := rfl

@[simp] theorem entries_cons (kv : KeyValue) (kvs : List KeyValue) :
    entries (kv :: kvs) = kv.key.bytes :: kv.value.bytes :: entries kvs := rfl

theorem length_entries (kvs : List KeyValue) : (entries kvs).length = 2 * kvs.length := by
  induction kvs with
  | nil =>
      rfl
  | cons kv kvs ih =>
      rw [entries_cons, List.length_cons, List.length_cons, ih, List.length_cons]
      omega

theorem entries_lt (kvs : List KeyValue) : ∀ p ∈ entries kvs, p.length < ldw.limit := by
  intro p hp
  rcases List.mem_flatMap.1 hp with ⟨kv, _, hp⟩
  rcases List.mem_cons.1 hp with rfl | hp
  · exact kv.key.length_lt
  · rw [List.mem_singleton.1 hp]
    exact kv.value.length_lt

theorem file_of_append (kvs kvs' : List KeyValue) :
    file_of (kvs ++ kvs') = file_of kvs ++ file_of kvs' := by
  rw [file_of, entries, List.flatMap_append, Header.encode_append]
  rfl

/-- Writing a pair to a file of pairs. -/
theorem ldw_write_pair (kvs : List KeyValue) (kv : KeyValue) :
    ldw_write (ldw_write (file_of kvs) kv.key) kv.value = file_of (kvs ++ [kv]) := by
  rw [ldw_write_eq, ldw_write_eq, file_of_append, List.append_assoc]
  simp [file_of]

theorem entries_injective {kvs kvs' : List KeyValue} (h : entries kvs = entries kvs') :
    kvs = kvs' := by
  induction kvs generalizing kvs' with
  | nil =>
      cases kvs' with
      | nil =>
          rfl
      | cons kv kvs' =>
          cases h
  | cons kv kvs ih =>
      cases kvs' with
      | nil =>
          cases h
      | cons kv' kvs' =>
          rcases kv with ⟨⟨key, _⟩, ⟨value, _⟩⟩
          rcases kv' with ⟨⟨key', _⟩, ⟨value', _⟩⟩
          rw [entries_cons, entries_cons, List.cons_eq_cons, List.cons_eq_cons] at h
          rcases h with ⟨hkey, hvalue, hrest⟩
          subst hkey hvalue
          rw [ih hrest]

/-- A file holds one list of pairs. -/
theorem file_of_injective {kvs kvs' : List KeyValue} (h : file_of kvs = file_of kvs') :
    kvs = kvs' := by
  have hdecode := congrArg ldw.decode h
  rw [file_of, file_of, Header.decode_encode (entries_lt kvs),
    Header.decode_encode (entries_lt kvs')] at hdecode
  exact entries_injective (Prod.mk.inj hdecode).1

theorem ldr_count_file_of (kvs : List KeyValue) : ldr_count (file_of kvs) = 2 * kvs.length := by
  rw [ldr_count_eq, file_of, Header.decode_encode (entries_lt kvs), length_entries]

theorem ldr_next_frame (buf : SizedBuffer) (rest : Bytes) :
    ldr_next (ldw.frame buf.bytes ++ rest) = (some buf, rest) := by
  have hlt : buf.bytes.length < ldw.limit := buf.length_lt
  rcases ldr_next_of_some (Header.next_frame_append hlt) with ⟨_, hsome⟩
  exact hsome

/-- The loop reads the pairs of the file, as far as there is room for them. -/
theorem read_pairs_file_of (length : Nat) (l kvs : List KeyValue) :
    read_pairs length (file_of l) kvs = kvs ++ l.take (length - kvs.length) := by
  induction l generalizing kvs with
  | nil =>
      have hnone : (ldr_next (file_of [])).1 = none := ldr_next_of_none Header.next_nil
      rw [read_pairs]
      split
      · simp
      · rename_i hsome
        rw [hsome] at hnone
        cases hnone
  | cons kv l ih =>
      have hkey : ldr_next (file_of (kv :: l)) =
          (some kv.key, ldw.frame kv.value.bytes ++ file_of l) := by
        rw [file_of, entries_cons, Header.encode_cons, ldr_next_frame, Header.encode_cons]
        rfl
      rw [read_pairs]
      split
      · rename_i hnone
        rw [hkey] at hnone
        cases hnone
      · rename_i hkey'
        rw [hkey] at hkey'
        cases hkey'
        split
        · rename_i hnone
          rw [ldr_next_frame] at hnone
          cases hnone
        · rename_i hvalue'
          rw [ldr_next_frame] at hvalue'
          cases hvalue'
          by_cases hroom : kvs.length < length
          · have htake : length - kvs.length = (length - (kvs ++ [kv]).length) + 1 := by
              rw [List.length_append, List.length_singleton]
              omega
            rw [if_pos hroom, ih, htake, List.take_succ_cons, List.append_assoc]
            rfl
          · rw [if_neg hroom, Nat.sub_eq_zero_of_le (Nat.not_lt.1 hroom), List.take_zero,
              List.append_nil]

/-- `read_map_kvs` reads all pairs of all files when there is room for all of them. -/
theorem read_map_kvs_file_of {ls : List (List KeyValue)} {length : Nat}
    (h : ls.flatten.length ≤ length) : read_map_kvs (ls.map file_of) length = ls.flatten := by
  have hrun : ∀ (ls : List (List KeyValue)) (kvs : List KeyValue),
      (kvs ++ ls.flatten).length ≤ length →
        (ls.map file_of).foldl (fun kvs reader => read_pairs length reader kvs) kvs =
          kvs ++ ls.flatten := by
    intro ls
    induction ls with
    | nil =>
        intro kvs _
        simp
    | cons l ls ih =>
        intro kvs hlen
        have hl : l.take (length - kvs.length) = l := by
          apply List.take_of_length_le
          rw [List.flatten_cons, List.length_append, List.length_append] at hlen
          omega
        rw [List.map_cons, List.foldl_cons, read_pairs_file_of, hl, ih]
        · rw [List.flatten_cons, List.append_assoc]
        · rwa [List.append_assoc, ← List.flatten_cons]
  exact hrun ls [] h

/-! ## Opening the readers -/

/-- The readers are opened when all files are, and the entries of all files are counted. -/
theorem open_reduce_readers_some (files : List Bytes) :
    open_reduce_readers (files.map some) = some (files, (files.map ldr_count).sum) := by
  have hrun : ∀ (files readers : List Bytes) (n : Nat),
      (files.map some).foldlM
        (fun (st : List Bytes × Nat) (file : Option Bytes) => do
          let reader ← file
          return (st.1 ++ [reader], st.2 + ldr_count reader))
        (readers, n) = some (readers ++ files, n + (files.map ldr_count).sum) := by
    intro files
    induction files with
    | nil =>
        intro readers n
        simp
    | cons f files ih =>
        intro readers n
        rw [List.map_cons, List.foldlM_cons]
        refine (ih _ _).trans ?_
        simp [Nat.add_assoc]
  simpa [open_reduce_readers] using hrun files [] 0

/-- A file that cannot be opened stops the task. -/
theorem open_reduce_readers_none {files : List (Option Bytes)} (h : none ∈ files) :
    open_reduce_readers files = none := by
  have hrun : ∀ (files : List (Option Bytes)) (st : List Bytes × Nat), none ∈ files →
      files.foldlM
        (fun (st : List Bytes × Nat) (file : Option Bytes) => do
          let reader ← file
          return (st.1 ++ [reader], st.2 + ldr_count reader))
        st = none := by
    intro files
    induction files with
    | nil =>
        intro st hmem
        cases hmem
    | cons f files ih =>
        intro st hmem
        cases f with
        | none =>
            rfl
        | some f =>
            rw [List.foldlM_cons]
            exact ih _ (by simpa using hmem)
  exact hrun files _ h

end Berk162.MapReduce
